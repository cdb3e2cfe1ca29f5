import CrossOver.Lua.Pb.Table.Chains
import Mathlib.Order.Interval.Finset.Nat

/-!
# A place for a new key

A new key gets its main position, or a free place behind it, or the main position of a guest
that gives way.  When there is none of these, every place has been used.
-/

namespace CrossOver.Lua.Pb

open CrossOver.Lib

namespace Table

variable {Value : Type} {t : Table Value} {i f lastfree : Nat} {key : Int64}

/-- The place has a key or leads on. -/
def Used (hash : List (Slot Value)) (i : Nat) : Prop :=
  ∃ entry, hash[i]? = some entry ∧ ¬ (entry.key = 0 ∧ entry.next = 0)

/-- What the scan finds: a free place above which all are used, or that all are used. -/
inductive Scanned (hash : List (Slot Value)) (lastfree : Nat) : Nat × Option Nat → Prop where
  | free {f : Nat} {entry : Slot Value} : 1 ≤ f → f < lastfree → hash[f]? = some entry →
      entry.key = 0 → entry.next = 0 → (∀ i, f < i → i < lastfree → Used hash i) →
      Scanned hash lastfree (f, some f)
  | full {left : Nat} : (1 ≤ lastfree → 1 ≤ left) → left ≤ lastfree →
      (∀ i, 1 ≤ i → i < lastfree → Used hash i) → Scanned hash lastfree (left, none)

theorem scan_scanned (hash : List (Slot Value)) (lastfree : Nat)
    (inside : lastfree ≤ hash.length) :
    ∃ result, scan hash lastfree = some result ∧ Scanned hash lastfree result := by
  induction lastfree using scan.induct with
  | case1 => exact ⟨_, rfl, .full id le_rfl fun i _ less => absurd less (Nat.not_lt_zero i)⟩
  | case2 => exact ⟨_, rfl, .full id le_rfl fun i more less => absurd less (not_lt.mpr more)⟩
  | case3 lastfree inductionHypothesis =>
      have read := List.getElem?_eq_getElem (l := hash) inside
      rw [scan, read]
      by_cases empty : hash[lastfree + 1].key = 0 ∧ hash[lastfree + 1].next = 0
      · refine ⟨_, if_pos empty, ?_⟩
        refine .free (by omega) (by omega) read empty.1 empty.2 fun i above less => ?_
        omega
      · rcases inductionHypothesis (by omega) with ⟨result, scanned, found⟩
        refine ⟨result, (if_neg empty).trans scanned, ?_⟩
        have top : Used hash (lastfree + 1) := ⟨_, read, empty⟩
        cases found with
        | free position less place key last used =>
            refine .free position (by omega) place key last fun i above below => ?_
            rcases Nat.lt_succ_iff_lt_or_eq.mp below with under | rfl
            · exact used i above under
            · exact top
        | full kept less used =>
            refine .full (fun _ => kept (by omega)) (by omega) fun i position below => ?_
            rcases Nat.lt_succ_iff_lt_or_eq.mp below with under | rfl
            · exact used i position under
            · exact top

open scoped Classical in
/-- The places behind the first one that are in use or have been given away by `lastfree`. -/
noncomputable def spent (t : Table Value) : Finset Nat :=
  (Finset.Ico 1 t.size).filter fun i => t.lastfree ≤ i ∨ t.scatter.InUse i

open scoped Classical in
theorem mem_spent :
    i ∈ t.spent ↔ (1 ≤ i ∧ i < t.size) ∧ (t.lastfree ≤ i ∨ t.scatter.InUse i) := by
  rw [spent, Finset.mem_filter, Finset.mem_Ico]

/-- What a new key does to a table. -/
structure Placed (t later : Table Value) (key : Int64) (i : Nat) : Prop where
  sound : later.Sound
  size : later.size = t.size
  hasZero : later.hasZero = t.hasZero
  first : later.hash[0]? = t.hash[0]?
  entry : later.scatter.entry i = some (key, none)
  maps : ∀ contents, t.scatter.Maps contents → contents key = none →
    later.scatter.Maps (Function.update contents key (some none))
  packed : t.scatter.Packed t.Claimed → later.scatter.Packed later.Claimed
  spent : ∃ x, later.spent ⊆ insert x t.spent

theorem Frame.claimed {later : Table Value} (frame : Frame t later) : later.Claimed = t.Claimed := by
  funext i
  rw [Claimed, Claimed, frame.size, frame.lastfree]

theorem Sound.slot_entry (sound : t.Sound) (used : Used t.hash i)
    (packed : t.scatter.Packed t.Claimed) : t.scatter.entry i ≠ none := by
  rcases used with ⟨entry, read, filled⟩
  intro empty
  have last := packed.ends i empty
  rw [entry_of_slot read, Slot.item] at empty
  split at empty
  case isTrue zero =>
      refine filled ⟨zero, ?_⟩
      by_contra nonzero
      rcases sound.linked i entry read nonzero with ⟨j, found⟩
      rw [next_of_slot read, Slot.link, if_neg nonzero, found] at last
      cases last
  case isFalse => cases empty

theorem Sound.inUse (sound : t.Sound) (used : Used t.hash i) : t.scatter.InUse i := by
  rcases used with ⟨entry, read, filled⟩
  rw [Scatter.InUse, entry_of_slot read, next_of_slot read]
  by_cases empty : entry.key = 0
  · have nonzero : entry.next ≠ 0 := fun last => filled ⟨empty, last⟩
    rcases sound.linked i entry read nonzero with ⟨j, found⟩
    rw [Slot.link, if_neg nonzero, found]
    exact .inr (Option.some_ne_none j)
  · rw [Slot.item, if_neg empty]
    exact .inl (Option.some_ne_none _)

theorem Sound.spent_of_used (sound : t.Sound) (position : 1 ≤ i) (used : Used t.hash i) :
    i ∈ t.spent := by
  rcases used with ⟨entry, read, filled⟩
  exact mem_spent.mpr ⟨⟨position, lt_of_slot read⟩, .inr (sound.inUse ⟨entry, read, filled⟩)⟩

/-- A free place and those above it are the ones that have been spent, and one more. -/
theorem Sound.spent_insert (sound : t.Sound) {later : Table Value}
    (used : ∀ i, f < i → i < t.lastfree → Used t.hash i)
    (frame : Frame { t with lastfree := f } later)
    (uses : ∀ j, later.scatter.InUse j → j = f ∨ t.scatter.InUse j) :
    later.spent ⊆ insert f t.spent := by
  intro i among
  rw [mem_spent, frame.size, frame.lastfree] at among
  rcases among with ⟨inside, above | used'⟩
  · rcases eq_or_lt_of_le above with same | above
    · exact Finset.mem_insert.mpr (.inl same.symm)
    · refine Finset.mem_insert_of_mem (mem_spent.mpr ⟨inside, ?_⟩)
      rcases Nat.lt_or_ge i t.lastfree with below | beyond
      · exact .inr (sound.inUse (used i above below))
      · exact .inl beyond
  · rcases uses i used' with same | held
    · exact Finset.mem_insert.mpr (.inl same)
    · exact Finset.mem_insert_of_mem (mem_spent.mpr ⟨inside, .inr held⟩)

/-- When no place is left, all of them have been spent. -/
theorem Sound.spent_full (sound : t.Sound)
    (used : ∀ i, 1 ≤ i → i < t.lastfree → Used t.hash i) : t.size ≤ t.spent.card + 1 := by
  have whole : Finset.Ico 1 t.size ⊆ t.spent := by
    intro i inside
    rw [Finset.mem_Ico] at inside
    rcases Nat.lt_or_ge i t.lastfree with below | beyond
    · exact sound.spent_of_used inside.1 (used i inside.1 below)
    · exact mem_spent.mpr ⟨inside, .inl beyond⟩
  have count := Finset.card_le_card whole
  rw [Nat.card_Ico] at count
  exact Nat.le_add_of_sub_le count

theorem Sound.spent_lower (sound : t.Sound) {left : Nat}
    (used : ∀ i, 1 ≤ i → i < t.lastfree → Used t.hash i) :
    { t with lastfree := left }.spent ⊆ t.spent := by
  intro i among
  rcases mem_spent.mp among with ⟨inside, -⟩
  rcases Nat.lt_or_ge i t.lastfree with below | beyond
  · exact sound.spent_of_used inside.1 (used i inside.1 below)
  · exact mem_spent.mpr ⟨inside, .inl beyond⟩

section Place

variable {mp : Nat} {entry free : Slot Value}

/-- The main position of the key is free. -/
theorem Sound.placed_settle (sound : t.Sound) (nonzero : key ≠ 0)
    (missing : t.scatter.Missing key) (read : t.hash[hashOf t.size key]? = some entry)
    (empty : entry.key = 0) :
    ∃ later, t.claim (hashOf t.size key) key = some (later, some (hashOf t.size key)) ∧
      Placed t later key (hashOf t.size key) := by
  rcases sound.toFormed.claim read (hashOf_pos _ nonzero) nonzero with ⟨later, claimed, effect⟩
  have free : t.scatter.entry (hashOf t.size key) = none := by
    rw [entry_of_slot read]
    exact if_pos empty
  have nowhere (j : Nat) (w : Option Value) (stored : t.scatter.entry j = some (key, w)) :
      j = hashOf t.size key := absurd ⟨j, stored⟩ (missing w)
  refine ⟨later, claimed, ?_⟩
  exact {
    sound := {
      effect.formed with
      chains := by
        rw [effect.scatter, effect.frame.size, effect.frame.claimed]
        exact sound.chains.settle nowhere (.inl rfl) }
    size := effect.frame.size
    hasZero := effect.frame.hasZero
    first := effect.frame.first
    entry := by rw [effect.scatter, Scatter.settle_entry, Function.update_self]
    maps := fun contents maps absent => by
      rw [effect.scatter]
      refine maps.settle nowhere fun l u stored => ?_
      cases free.symm.trans stored
    packed := fun packed => by
      rw [effect.scatter, effect.frame.claimed]
      exact packed.settle _ _
    spent := by
      refine ⟨hashOf t.size key, fun i among => ?_⟩
      rw [mem_spent, effect.frame.size, effect.frame.lastfree, effect.scatter] at among
      rcases among with ⟨inside, above | used⟩
      · exact Finset.mem_insert_of_mem (mem_spent.mpr ⟨inside, .inl above⟩)
      · refine Finset.mem_insert.mpr (used.of_settle.imp_right fun held => ?_)
        exact mem_spent.mpr ⟨inside, .inr held⟩ }

/-- The free place that has been found. -/
theorem spare_of_slot (less : f < t.lastfree) (place : t.hash[f]? = some free)
    (empty : free.key = 0) (last : free.next = 0) : t.scatter.Free t.Claimed f where
  unclaimed claimed := absurd less (not_lt.mpr claimed.1)
  empty := by
    rw [entry_of_slot place]
    exact if_pos empty
  last := by
    rw [next_of_slot place]
    exact if_pos last

/-- What is claimed anew lies between the free place and the ones that were claimed. -/
theorem Sound.filled (sound : t.Sound) (used : ∀ i, f < i → i < t.lastfree → Used t.hash i)
    (packed : t.scatter.Packed t.Claimed) (i : Nat) (claimed : f ≤ i ∧ i < t.size) :
    i = f ∨ t.scatter.entry i ≠ none := by
  rcases eq_or_lt_of_le claimed.1 with same | above
  · exact .inl same.symm
  · refine .inr ?_
    rcases Nat.lt_or_ge i t.lastfree with below | beyond
    · exact sound.slot_entry (used i above below) packed
    · exact packed.full i ⟨beyond, claimed.2⟩

theorem Sound.placed_hook (sound : t.Sound) (nonzero : key ≠ 0)
    (missing : t.scatter.Missing key) (read : t.hash[hashOf t.size key]? = some entry)
    (held : entry.key ≠ 0) (stays : hashOf t.size entry.key = hashOf t.size key)
    (position : 1 ≤ f) (less : f < t.lastfree) (place : t.hash[f]? = some free)
    (empty : free.key = 0) (last : free.next = 0)
    (used : ∀ i, f < i → i < t.lastfree → Used t.hash i) :
    ∃ later, ({ t with lastfree := f }.hook f (hashOf t.size key) >>= fun moved =>
      moved.claim f key) =
      some (later, some f) ∧ Placed t later key f := by
  have spare := spare_of_slot less place empty last
  have stored : t.scatter.entry (hashOf t.size key) = some (entry.key, entry.value) :=
    entry_eq_some.mpr ⟨entry, read, rfl, held, rfl⟩
  have apart : f ≠ hashOf t.size key := by
    intro same
    rw [← same, spare.empty] at stored
    cases stored
  rcases (sound.toFormed.lower position less.le).hook read place empty last position
    (hashOf_pos _ nonzero) apart held (spare.not_next sound.chains) nonzero with
    ⟨later, made, effect⟩
  refine ⟨later, made, ?_⟩
  have filled : t.scatter.entry (hashOf t.size key) ≠ none := by
    rw [stored]
    exact Option.some_ne_none _
  exact {
    sound := {
      effect.formed with
      chains := by
        rw [effect.scatter, effect.frame.size, effect.frame.claimed]
        exact sound.chains.hook spare missing stored stays rfl
          (fun j claimed => ⟨less.le.trans claimed.1, claimed.2⟩)
          ⟨le_rfl, lt_of_slot place⟩ }
    size := effect.frame.size
    hasZero := effect.frame.hasZero
    first := effect.frame.first
    entry := by
      rw [effect.scatter]
      exact Function.update_self ..
    maps := fun contents maps absent => by
      rw [effect.scatter]
      exact maps.hook absent spare.empty
    packed := fun packed => by
      rw [effect.scatter, effect.frame.claimed]
      exact packed.hook filled (sound.filled used packed)
    spent := by
      refine ⟨f, sound.spent_insert used effect.frame fun j inUse => ?_⟩
      rw [effect.scatter] at inUse
      exact inUse.of_hook filled }

theorem Sound.placed_evict (sound : t.Sound) (nonzero : key ≠ 0)
    (missing : t.scatter.Missing key) (read : t.hash[hashOf t.size key]? = some entry)
    (held : entry.key ≠ 0) (guest : hashOf t.size entry.key ≠ hashOf t.size key)
    (position : 1 ≤ f) (less : f < t.lastfree) (place : t.hash[f]? = some free)
    (empty : free.key = 0) (last : free.next = 0)
    (used : ∀ i, f < i → i < t.lastfree → Used t.hash i) :
    ∃ later, ({ t with lastfree := f }.evict f (hashOf t.size key) >>= fun moved =>
      moved.claim (hashOf t.size key) key) = some (later, some (hashOf t.size key)) ∧
        Placed t later key (hashOf t.size key) := by
  have spare := spare_of_slot less place empty last
  have stored : t.scatter.entry (hashOf t.size key) = some (entry.key, entry.value) :=
    entry_eq_some.mpr ⟨entry, read, rfl, held, rfl⟩
  have apart : f ≠ hashOf t.size key := by
    intro same
    rw [← same, spare.empty] at stored
    cases stored
  rcases (sound.toFormed.lower position less.le).evict sound.chains
    (fun _ claimed => claimed.2) read place position (hashOf_pos _ nonzero) held guest spare
    nonzero with ⟨later, on, made, front, effect⟩
  refine ⟨later, made, ?_⟩
  have filled : t.scatter.entry (hashOf t.size key) ≠ none := by
    rw [stored]
    exact Option.some_ne_none _
  exact {
    sound := {
      effect.formed with
      chains := by
        rw [effect.scatter, effect.frame.size, effect.frame.claimed]
        exact sound.chains.evict spare missing stored guest front rfl
          (fun j claimed => ⟨less.le.trans claimed.1, claimed.2⟩)
          ⟨le_rfl, lt_of_slot place⟩ }
    size := effect.frame.size
    hasZero := effect.frame.hasZero
    first := effect.frame.first
    entry := by
      rw [effect.scatter]
      exact Function.update_self ..
    maps := fun contents maps absent => by
      rw [effect.scatter]
      exact maps.evict absent spare.empty apart
    packed := fun packed => by
      rw [effect.scatter, effect.frame.claimed]
      exact packed.evict front filled (sound.filled used packed)
    spent := by
      have leads : t.scatter.next on ≠ none := by
        intro ends
        cases ends.symm.trans front
      refine ⟨f, sound.spent_insert used effect.frame fun j inUse => ?_⟩
      rw [effect.scatter] at inUse
      exact inUse.of_evict filled leads }

/-- A new key is placed, unless no place is free. -/
theorem Sound.place (sound : t.Sound) (nonzero : key ≠ 0) (missing : t.scatter.Missing key) :
    (∃ later i, t.place key = some (later, some i) ∧ Placed t later key i) ∨
      ∃ left, t.place key = some ({ t with lastfree := left }, none) ∧ 1 ≤ left ∧
        left ≤ t.lastfree ∧ ∀ i, 1 ≤ i → i < t.lastfree → Used t.hash i := by
  rcases exists_slot (sound.home_lt key) with ⟨entry, read⟩
  simp only [Table.place, if_neg nonzero, read, Option.bind_eq_bind, Option.bind_some]
  by_cases empty : entry.key = 0
  · rcases sound.placed_settle nonzero missing read empty with ⟨later, claimed, placed⟩
    exact .inl ⟨later, _, (if_pos empty).trans claimed, placed⟩
  · rcases scan_scanned t.hash t.lastfree sound.high with ⟨result, scanned, found⟩
    simp only [if_neg empty, scanned, Option.bind_some]
    cases found with
    | full kept less used => exact .inr ⟨_, rfl, kept sound.low, less, used⟩
    | free position less place zero last used =>
        refine .inl ?_
        by_cases guest : hashOf t.size entry.key ≠ hashOf t.size key
        · rcases sound.placed_evict nonzero missing read empty guest position less place zero last
            used with ⟨later, made, placed⟩
          exact ⟨later, _, (if_pos guest).trans made, placed⟩
        · rcases sound.placed_hook nonzero missing read empty (not_not.mp guest) position less
            place zero last used with ⟨later, made, placed⟩
          exact ⟨later, _, (if_neg guest).trans made, placed⟩

end Place

theorem spent_of_same {later : Table Value} (scatter : later.scatter = t.scatter)
    (lastfree : later.lastfree = t.lastfree) (size : later.size = t.size) :
    later.spent = t.spent := by
  ext i
  rw [mem_spent, mem_spent, scatter, lastfree, size]

theorem Effect.spent {later : Table Value} {item : Int64 × Option Value}
    (effect : Effect t later (t.scatter.settle i item)) (held : t.scatter.entry i ≠ none) :
    later.spent ⊆ t.spent := by
  intro j among
  rw [mem_spent, effect.frame.size, effect.frame.lastfree, effect.scatter] at among
  rcases among with ⟨inside, above | used⟩
  · exact mem_spent.mpr ⟨inside, .inl above⟩
  · rcases used.of_settle with rfl | used
    · exact mem_spent.mpr ⟨inside, .inr (.inl held)⟩
    · exact mem_spent.mpr ⟨inside, .inr used⟩

section Values

variable {entry : Slot Value} {value : Option Value}

theorem Sound.position (sound : t.Sound) (read : t.hash[i]? = some entry)
    (filled : entry.key ≠ 0) : 1 ≤ i := by
  refine Nat.one_le_iff_ne_zero.mpr ?_
  rintro rfl
  exact filled (sound.zero entry read).1

/-- A key that has an entry gets another value. -/
theorem Sound.assign (sound : t.Sound) (read : t.hash[i]? = some entry) (filled : entry.key ≠ 0)
    (value : Option Value) :
    (t.put i { entry with value := value }).Sound ∧
      Effect t (t.put i { entry with value := value })
        (t.scatter.settle i (entry.key, value)) := by
  have stored : t.scatter.entry i = some (entry.key, entry.value) :=
    entry_eq_some.mpr ⟨entry, read, rfl, filled, rfl⟩
  have effect := sound.effect.put { entry with value := value }
    (sound.position read filled) (lt_of_slot read) (sound.linked i entry read)
    fun zero => absurd zero filled
  have item : ({ entry with value := value } : Slot Value).item = some (entry.key, value) :=
    if_neg filled
  have same : Function.update t.scatter.next i (entry.link i) = t.scatter.next := by
    rw [← next_of_slot read, Function.update_eq_self]
  rw [item] at effect
  change Effect t _ ⟨_, Function.update t.scatter.next i (entry.link i)⟩ at effect
  rw [same] at effect
  refine ⟨{ effect.formed with chains := ?_ }, effect⟩
  rw [effect.scatter, effect.frame.size, effect.frame.claimed]
  exact sound.chains.settle (fun j w other => sound.chains.once _ _ _ _ _ other stored)
    (.inr ⟨_, stored⟩)

/-- The first slot gets a value, and zero is there or not. -/
theorem Sound.first (sound : t.Sound) {hasZero : Bool} {value : Option Value}
    (blank : hasZero = false → value = none) :
    ({ t with hasZero := hasZero }.put 0 ⟨0, 0, value⟩).Sound ∧
      ({ t with hasZero := hasZero }.put 0 ⟨0, 0, value⟩).scatter = t.scatter := by
  rcases exists_slot sound.pos with ⟨old, read⟩
  have bare := sound.zero old read
  have same : ({ t with hasZero := hasZero }.put 0 ⟨0, 0, value⟩).scatter = t.scatter := by
    have entries := put_entry (t := { t with hasZero := hasZero }) sound.pos ⟨0, 0, value⟩
    have nexts := put_next (t := { t with hasZero := hasZero }) sound.pos ⟨0, 0, value⟩
    have noEntry : ({ t with hasZero := hasZero } : Table Value).scatter.entry 0 = none := by
      rw [entry_of_slot (t := { t with hasZero := hasZero }) read]
      exact if_pos bare.1
    have noNext : ({ t with hasZero := hasZero } : Table Value).scatter.next 0 = none := by
      rw [next_of_slot (t := { t with hasZero := hasZero }) read]
      exact if_pos bare.2
    rw [show (⟨0, 0, value⟩ : Slot Value).item = none from if_pos rfl, ← noEntry,
      Function.update_eq_self] at entries
    rw [show (⟨0, 0, value⟩ : Slot Value).link 0 = none from if_pos rfl, ← noNext,
      Function.update_eq_self] at nexts
    exact congrArg₂ Scatter.mk entries nexts
  have size : ({ t with hasZero := hasZero }.put 0 ⟨0, 0, value⟩).size = t.size :=
    put_size _ _ _
  have claimed : ({ t with hasZero := hasZero }.put 0 ⟨0, 0, value⟩).Claimed = t.Claimed := by
    funext j
    rw [Claimed, Claimed, size]
    exact rfl
  refine ⟨?_, same⟩
  exact {
    linked := fun j entry found filled => by
      rw [put_hash] at found
      split at found
      case isTrue =>
          split at found
          · cases found
            exact absurd rfl filled
          · cases found
      case isFalse => exact sound.linked j entry found filled
    zero := fun entry found => by
      rw [put_hash, if_pos rfl] at found
      split at found
      · cases found
        exact ⟨rfl, rfl⟩
      · cases found
    holes := fun j entry found behind => by
      rw [put_hash, if_neg (Nat.ne_of_gt behind)] at found
      exact sound.holes j entry found behind
    blank := fun entry found absent => by
      rw [put_hash, if_pos rfl] at found
      split at found
      · cases found
        exact blank absent
      · cases found
    large := sound.large.trans_eq size.symm
    low := sound.low
    high := sound.high.trans_eq size.symm
    chains := by
      rw [same, size, claimed]
      exact sound.chains }

theorem put_put (t : Table Value) (i : Nat) (first second : Slot Value) :
    (t.put i first).put i second = t.put i second := by
  simp only [put, List.set_set]

theorem put_read (inside : i < t.size) (entry : Slot Value) :
    (t.put i entry).hash[i]? = some entry := by
  rw [put_hash, if_pos rfl, if_pos inside]

theorem Sound.place_zero (sound : t.Sound) :
    t.place 0 = some ({ t with hasZero := true }.put 0 ⟨0, 0, none⟩, some 0) := by
  rcases exists_slot sound.pos with ⟨first, read⟩
  have blank : ({ first with key := 0, value := none } : Slot Value) = ⟨0, 0, none⟩ :=
    congrArg (Slot.mk · 0 none) (sound.zero first read).2
  rw [Table.place, if_pos rfl, claim]
  simp only [read, Option.bind_eq_bind, Option.bind_some, blank]
  exact rfl

end Values

end Table

end CrossOver.Lua.Pb
