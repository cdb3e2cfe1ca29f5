import CrossOver.Lua.Pb.Table.Places

/-!
# Growth of the hash table

A table that grows carries every slot along, also those without a key.  The new array has
a place for each of them, so no growth calls for another one.
-/

namespace CrossOver.Lua.Pb

open CrossOver.Lib

namespace Table

variable {Value : Type} {t nt : Table Value} {i room depth : Nat} {key : Int64}

section Sizes

theorem doubled_ge (fuel newsize size : Nat) (positive : 1 ≤ newsize)
    (enough : size ≤ newsize + fuel) : size ≤ doubled fuel newsize size := by
  induction fuel generalizing newsize with
  | zero => exact enough
  | succ fuel inductionHypothesis =>
      rw [doubled]
      split
      case isTrue => exact inductionHypothesis (2 * newsize) (by omega) (by omega)
      case isFalse large => exact not_lt.mp large

theorem le_doubled (fuel newsize size : Nat) : newsize ≤ doubled fuel newsize size := by
  induction fuel generalizing newsize with
  | zero => exact le_rfl
  | succ fuel inductionHypothesis =>
      rw [doubled]
      split
      case isTrue => exact le_trans (by omega) (inductionHypothesis (2 * newsize))
      case isFalse => exact le_rfl

theorem le_newSize (size : Nat) : size ≤ newSize size :=
  doubled_ge size 8 size (by decide) (Nat.le_add_left size 8)

theorem newSize_large (size : Nat) : 8 ≤ newSize size := le_doubled size 8 size

theorem doubled_pow (fuel exponent target : Nat) (below : exponent ≤ target)
    (enough : target ≤ exponent + fuel) :
    doubled fuel (8 * 2 ^ exponent) (8 * 2 ^ target) = 8 * 2 ^ target := by
  induction fuel generalizing exponent with
  | zero => rw [le_antisymm below enough, doubled]
  | succ fuel inductionHypothesis =>
      have twice : 2 * (8 * 2 ^ exponent) = 8 * 2 ^ (exponent + 1) := by
        rw [Nat.pow_succ]
        omega
      rw [doubled, twice]
      rcases eq_or_lt_of_le below with rfl | less
      · exact if_neg (lt_irrefl _)
      · have smaller : 8 * 2 ^ exponent < 8 * 2 ^ target :=
          Nat.mul_lt_mul_of_pos_left (Nat.pow_lt_pow_right Nat.one_lt_two less) (by decide)
        rw [if_pos smaller]
        exact inductionHypothesis (exponent + 1) less (by omega)

theorem newSize_pow (exponent : Nat) :
    newSize (8 * 2 ^ exponent * 2) = 8 * 2 ^ (exponent + 1) := by
  have twice : 8 * 2 ^ exponent * 2 = 8 * 2 ^ (exponent + 1) := by
    rw [Nat.pow_succ, Nat.mul_assoc]
  have large : exponent + 1 ≤ 8 * 2 ^ (exponent + 1) :=
    (Nat.lt_two_pow_self).le.trans (Nat.le_mul_of_pos_left _ (by decide))
  rw [newSize, twice]
  exact doubled_pow _ 0 (exponent + 1) (Nat.zero_le _) (by omega)

end Sizes

section Fresh

/-- The array that `pb_resizetable` starts with. -/
def fresh (t : Table Value) (size : Nat) : Table Value :=
  { t with lastfree := size, hash := List.replicate size Slot.zeroed }

theorem fresh_slot {size : Nat} {entry : Slot Value}
    (read : (t.fresh size).hash[i]? = some entry) : entry = Slot.zeroed := by
  rw [fresh, List.getElem?_replicate] at read
  split at read
  · exact (Option.some.inj read).symm
  · cases read

theorem fresh_entry (t : Table Value) (size i : Nat) :
    (t.fresh size).scatter.entry i = none := by
  cases read : (t.fresh size).hash[i]? with
  | none => simp only [scatter, read, Option.bind_none]
  | some entry =>
      rw [entry_of_slot read, fresh_slot read]
      exact if_pos rfl

theorem fresh_next (t : Table Value) (size i : Nat) :
    (t.fresh size).scatter.next i = none := by
  cases read : (t.fresh size).hash[i]? with
  | none => simp only [scatter, read, Option.bind_none]
  | some entry =>
      rw [next_of_slot read, fresh_slot read]
      exact if_pos rfl

theorem fresh_size (t : Table Value) (size : Nat) : (t.fresh size).size = size :=
  List.length_replicate

theorem fresh_sound (t : Table Value) {size : Nat} (large : 8 ≤ size) : (t.fresh size).Sound where
  linked i entry read filled := by
    rw [fresh_slot read] at filled
    exact absurd rfl filled
  zero entry read := by
    rw [fresh_slot read]
    exact ⟨rfl, rfl⟩
  holes i entry read _ _ := by
    rw [fresh_slot read]
    exact rfl
  blank entry read _ := by
    rw [fresh_slot read]
    exact rfl
  large := large.trans_eq (fresh_size t size).symm
  low := le_trans (by decide) large
  high := (fresh_size t size).symm.le
  chains := {
    reached := fun i k v stored => by cases (fresh_entry t size i).symm.trans stored
    once := fun i j k v w stored => by cases (fresh_entry t size i).symm.trans stored
    joined := fun i j u link => by cases (fresh_next t size i).symm.trans link
    claims := fun i u link => by cases (fresh_next t size i).symm.trans link
    guest := fun i j k l v w stored => by cases (fresh_entry t size i).symm.trans stored
    ranked := ⟨fun _ => 0, fun i u link => by cases (fresh_next t size i).symm.trans link⟩ }

theorem fresh_maps (t : Table Value) (size : Nat) :
    (t.fresh size).scatter.Maps fun _ => none := by
  intro k v
  constructor
  · rintro ⟨i, stored⟩
    cases (fresh_entry t size i).symm.trans stored
  · intro found
    cases found

theorem fresh_packed (t : Table Value) (size : Nat) :
    (t.fresh size).scatter.Packed (t.fresh size).Claimed where
  ends i _ := fresh_next t size i
  full i claimed := by
    rw [Claimed, fresh_size] at claimed
    exact absurd claimed.2 (not_lt.mpr claimed.1)

theorem fresh_spent (t : Table Value) (size : Nat) : (t.fresh size).spent = ∅ := by
  refine Finset.eq_empty_of_forall_notMem fun i among => ?_
  rcases mem_spent.mp among with ⟨inside, above | used⟩
  · rw [fresh_size] at inside
    exact absurd inside.2 (not_lt.mpr above)
  · exact used.elim (fun filled => filled (fresh_entry t size i))
      fun leads => leads (fresh_next t size i)

end Fresh

/-- With fewer keys than places behind the first one, not every place has been used. -/
theorem Sound.not_full (sound : t.Sound) (packed : t.scatter.Packed t.Claimed)
    (keys : List Int64) (held : ∀ key value, t.scatter.Holds key value → key ∈ keys)
    (few : keys.length + 1 < t.size) :
    ¬ ∀ i, 1 ≤ i → i < t.lastfree → Used t.hash i := by
  intro used
  have filled (i : Nat) (inside : i ∈ Finset.Ico 1 t.size) :
      ∃ item, t.scatter.entry i = some item := by
    rw [Finset.mem_Ico] at inside
    apply Option.ne_none_iff_exists'.mp
    rcases Nat.lt_or_ge i t.lastfree with below | beyond
    · exact sound.slot_entry (used i inside.1 below) packed
    · exact packed.full i ⟨beyond, inside.2⟩
  let keyAt (i : Nat) : Int64 := ((t.scatter.entry i).map Prod.fst).getD 0
  have count : (Finset.Ico 1 t.size).card ≤ keys.toFinset.card := by
    apply Finset.card_le_card_of_injOn keyAt
    · intro i inside
      rcases filled i inside with ⟨⟨key, value⟩, stored⟩
      simp only [keyAt, stored, Option.map_some, Option.getD_some]
      exact List.mem_toFinset.mpr (held key value ⟨i, stored⟩)
    · intro i inside j there same
      rcases filled i inside with ⟨⟨key, value⟩, stored⟩
      rcases filled j there with ⟨⟨other, found⟩, held⟩
      simp only [keyAt, stored, held, Option.map_some, Option.getD_some] at same
      exact sound.chains.once _ _ _ _ _ stored (same ▸ held)
  rw [Nat.card_Ico] at count
  have bound := count.trans keys.toFinset_card_le
  omega

section Carrying

variable {done rest : List (Slot Value)} {olde : Slot Value}

/-- What the slots hold, by keys that are not zero. -/
def contents (slots : List (Slot Value)) (key : Int64) : Option (Option Value) :=
  if key = 0 then none else (slots.find? (·.key = key)).map (·.value)

/-- The value of the last slot without a key. -/
def lastZero (slots : List (Slot Value)) : Option Value :=
  slots.foldl (fun value entry => if entry.key = 0 then entry.value else value) none

/-- No key but zero occurs twice. -/
def Apart (slots : List (Slot Value)) : Prop :=
  slots.Pairwise fun first second => second.key ≠ 0 → first.key ≠ second.key

theorem contents_zero (empty : olde.key = 0) : contents (done ++ [olde]) = contents done := by
  funext key
  unfold contents
  split
  case isTrue => exact rfl
  case isFalse nonzero =>
      have other : ¬ olde.key = key := fun same => nonzero (same.symm.trans empty)
      rw [List.find?_append, List.find?_singleton, decide_eq_false other]
      simp

theorem contents_append (filled : olde.key ≠ 0) (new : ∀ entry ∈ done, entry.key ≠ olde.key) :
    contents (done ++ [olde]) = Function.update (contents done) olde.key (some olde.value) := by
  funext key
  by_cases same : key = olde.key
  · subst same
    have absent : done.find? (fun entry => decide (entry.key = olde.key)) = none := by
      rw [List.find?_eq_none]
      simpa using new
    rw [Function.update_self, contents, if_neg filled, List.find?_append, absent]
    simp
  · rw [Function.update_of_ne same]
    unfold contents
    split
    case isTrue => exact rfl
    case isFalse =>
        rw [List.find?_append, List.find?_singleton, decide_eq_false (Ne.symm same)]
        simp

theorem key_of_find {entry : Slot Value}
    (found : done.find? (fun entry => decide (entry.key = key)) = some entry) :
    entry.key = key := by
  have same := List.find?_some found
  rwa [decide_eq_true_eq] at same

theorem contents_of_mem {value : Option Value} (held : contents done key = some value) :
    key ∈ done.map (·.key) := by
  unfold contents at held
  split at held
  case isTrue => cases held
  case isFalse =>
      rcases Option.map_eq_some_iff.mp held with ⟨entry, found, -⟩
      exact List.mem_map.mpr ⟨entry, List.mem_of_find?_eq_some found, key_of_find found⟩

structure Carried (old : Table Value) (size : Nat) (done : List (Slot Value))
    (nt : Table Value) : Prop where
  sound : nt.Sound
  size : nt.size = size
  packed : nt.scatter.Packed nt.Claimed
  maps : nt.scatter.Maps (contents done)
  hasZero : nt.hasZero = (old.hasZero || done.any (·.key = 0))
  spent : nt.spent.card ≤ (old.spent.filter (· < done.length)).card
  first : nt.hash[0]?.bind (·.value) = lastZero done

theorem carried_start (t : Table Value) {size : Nat} (large : 8 ≤ size) :
    Carried t size [] (t.fresh size) where
  sound := fresh_sound t large
  size := fresh_size t size
  packed := fresh_packed t size
  maps := by
    have empty : contents ([] : List (Slot Value)) = fun _ => none := by
      funext key
      exact ite_self _
    rw [empty]
    exact fresh_maps t size
  hasZero := (Bool.or_false _).symm
  spent := by
    rw [fresh_spent, Finset.card_empty]
    exact Nat.zero_le _
  first := by
    cases read : (t.fresh size).hash[0]? with
    | none => exact rfl
    | some entry =>
        rw [fresh_slot read]
        exact rfl

theorem newkey_of_place (room depth : Nat) {placed : Table Value × Option Nat} (sized : t.size ≠ 0)
    (made : t.place key = some placed) (found : placed.2 ≠ none) :
    newkey room (depth + 1) t key = some placed := by
  simp only [newkey, if_neg sized, Option.bind_eq_bind, Option.bind_some, if_true, made,
    if_neg found]
  exact rfl

theorem count_le (places : Finset Nat) (n : Nat) :
    (places.filter (· < n)).card ≤ (places.filter (· < n + 1)).card :=
  Finset.card_le_card (Finset.monotone_filter_right places fun _ _ less => Nat.lt_succ_of_lt less)

theorem count_lt {places : Finset Nat} {n : Nat} (member : n ∈ places) :
    (places.filter (· < n)).card + 1 ≤ (places.filter (· < n + 1)).card := by
  have new : n ∉ places.filter (· < n) := fun among =>
    absurd (Finset.mem_filter.mp among).2 (lt_irrefl n)
  rw [← Finset.card_insert_of_notMem new]
  refine Finset.card_le_card fun i among => ?_
  rcases Finset.mem_insert.mp among with rfl | old
  · exact Finset.mem_filter.mpr ⟨member, Nat.lt_succ_self i⟩
  · rw [Finset.mem_filter] at old ⊢
    exact ⟨old.1, Nat.lt_succ_of_lt old.2⟩

/-- A slot without a key goes to the first slot. -/
theorem Carried.zero {old : Table Value} {size : Nat} (carried : Carried old size done nt)
    (empty : olde.key = 0) :
    ∃ later, carry (newkey room (depth + 1)) nt olde = some later ∧
      Carried old size (done ++ [olde]) later := by
  have pos := carried.sound.pos
  have made : newkey room (depth + 1) nt olde.key =
      some ({ nt with hasZero := true }.put 0 ⟨0, 0, none⟩, some 0) := by
    rw [empty]
    exact newkey_of_place room depth pos.ne' carried.sound.place_zero (Option.some_ne_none 0)
  have read : ({ nt with hasZero := true }.put 0 ⟨0, 0, none⟩).hash[0]? =
      some (⟨0, 0, none⟩ : Slot Value) := put_read pos _
  have again := put_put { nt with hasZero := true } 0 ⟨0, 0, none⟩ ⟨0, 0, olde.value⟩
  have present : true = false → olde.value = none := fun equal => Bool.noConfusion equal
  rcases carried.sound.first present with ⟨sound, same⟩
  refine ⟨{ nt with hasZero := true }.put 0 ⟨0, 0, olde.value⟩, ?_, ?_⟩
  · simp only [carry, made, Option.bind_eq_bind, Option.bind_some, read, again]
    exact rfl
  · exact {
      sound := sound
      size := (put_size _ _ _).trans carried.size
      packed := by
        have claimed : ({ nt with hasZero := true }.put 0 ⟨0, 0, olde.value⟩).Claimed =
            nt.Claimed := by
          funext j
          rw [Claimed, Claimed, put_size]
          exact rfl
        rw [same, claimed]
        exact carried.packed
      maps := by
        rw [same, contents_zero empty]
        exact carried.maps
      hasZero := by
        rw [List.any_append, List.any_cons, decide_eq_true empty, Bool.true_or, Bool.or_true,
          Bool.or_true]
        exact rfl
      spent := by
        rw [spent_of_same same rfl (put_size _ _ _), List.length_append, List.length_singleton]
        exact carried.spent.trans (count_le _ _)
      first := by
        rw [put_read (t := { nt with hasZero := true }) pos, lastZero, List.foldl_append, List.foldl_cons, if_pos empty]
        exact rfl }

theorem Carried.append {old : Table Value} {size : Nat} (carried : Carried old size done nt)
    (filled : olde.key ≠ 0) (new : ∀ entry ∈ done, entry.key ≠ olde.key)
    (few : done.length + 1 < size) (counted : done.length ∈ old.spent) :
    ∃ later, carry (newkey room (depth + 1)) nt olde = some later ∧
      Carried old size (done ++ [olde]) later := by
  have absent : contents done olde.key = none := by
    rw [contents, if_neg filled, List.find?_eq_none.mpr]
    · exact rfl
    · simpa using new
  rcases carried.sound.place filled (carried.maps.missing absent) with
    ⟨placed, i, made, spec⟩ | ⟨left, -, -, -, used⟩
  · rcases entry_eq_some.mp spec.entry with ⟨newe, read, same, -, -⟩
    have nonzero : newe.key ≠ 0 := same.symm ▸ filled
    have made := newkey_of_place room depth carried.sound.pos.ne' made
      (Option.some_ne_none i)
    rcases spec.sound.assign read nonzero olde.value with ⟨sound, effect⟩
    refine ⟨placed.put i { newe with value := olde.value }, ?_, ?_⟩
    · simp only [carry, made, Option.bind_eq_bind, Option.bind_some, read]
      exact rfl
    · have maps := spec.maps _ carried.maps absent
      have once (j : Nat) (w : Option Value) (stored : placed.scatter.entry j =
          some (newe.key, w)) : j = i :=
        spec.sound.chains.once _ _ _ _ _ stored (same.symm ▸ spec.entry)
      exact {
        sound := sound
        size := effect.frame.size.trans (spec.size.trans carried.size)
        packed := by
          rw [effect.scatter, effect.frame.claimed]
          exact (spec.packed carried.packed).settle i _
        maps := by
          have settled := maps.settle (v := olde.value) once fun l u stored => by
            rw [spec.entry] at stored
            cases stored
            exact same.symm
          rw [same, Function.update_idem] at settled
          rw [effect.scatter, contents_append filled new, same]
          exact settled
        hasZero := by
          rw [effect.frame.hasZero, spec.hasZero, carried.hasZero, List.any_append,
            List.any_cons, decide_eq_false filled, List.any_nil, Bool.or_false, Bool.or_false]
        spent := by
          have held : placed.scatter.entry i ≠ none := by
            rw [spec.entry]
            exact Option.some_ne_none _
          rcases spec.spent with ⟨x, fewer⟩
          rw [List.length_append, List.length_singleton]
          calc
            _ ≤ placed.spent.card := Finset.card_le_card (effect.spent held)
            _ ≤ (insert x nt.spent).card := Finset.card_le_card fewer
            _ ≤ nt.spent.card + 1 := Finset.card_insert_le x nt.spent
            _ ≤ (old.spent.filter (· < done.length)).card + 1 :=
              Nat.succ_le_succ carried.spent
            _ ≤ _ := count_lt counted
        first := by
          rw [effect.frame.first, spec.first, carried.first, lastZero, lastZero,
            List.foldl_append, List.foldl_cons, if_neg filled, List.foldl_nil] }
  · refine absurd used (carried.sound.not_full carried.packed (done.map (·.key)) ?_ ?_)
    · intro key value holds
      exact contents_of_mem ((carried.maps key value).mp holds)
    · rwa [List.length_map, carried.size]

theorem Sound.apart (sound : t.Sound) : Apart t.hash := by
  refine List.pairwise_iff_getElem.mpr fun i j first second less filled same => ?_
  have here := List.getElem?_eq_getElem first
  have there := List.getElem?_eq_getElem second
  have stored := entry_eq_some.mpr ⟨_, here, same, filled, rfl⟩
  have other := entry_eq_some.mpr ⟨_, there, rfl, filled, rfl⟩
  exact absurd (sound.chains.once _ _ _ _ _ stored other) (Nat.ne_of_lt less)

theorem Sound.maps_contents (sound : t.Sound) : t.scatter.Maps (contents t.hash) := by
  intro key value
  constructor
  · rintro ⟨i, stored⟩
    rcases entry_eq_some.mp stored with ⟨entry, read, same, filled, rfl⟩
    have among : ∃ other ∈ t.hash, decide (other.key = key) = true :=
      ⟨entry, List.mem_of_getElem? read, decide_eq_true same⟩
    rcases Option.isSome_iff_exists.mp (List.find?_isSome.mpr among) with ⟨other, found⟩
    rcases List.getElem?_of_mem (List.mem_of_find?_eq_some found) with ⟨j, held⟩
    have equal := key_of_find found
    have alone := sound.chains.once i j key _ _ stored
      (entry_eq_some.mpr ⟨other, held, equal, filled, rfl⟩)
    rw [alone, held] at read
    cases read
    rw [contents, if_neg filled, found]
    exact rfl
  · intro held
    unfold contents at held
    split at held
    case isTrue => cases held
    case isFalse filled =>
        rcases Option.map_eq_some_iff.mp held with ⟨entry, found, same⟩
        rcases List.getElem?_of_mem (List.mem_of_find?_eq_some found) with ⟨i, read⟩
        have equal := key_of_find found
        exact ⟨i, entry_eq_some.mpr ⟨entry, read, equal, filled, same⟩⟩

theorem Sound.carry_all (sound : t.Sound) {size : Nat} (twice : t.size * 2 ≤ size) (room depth : Nat) :
    ∃ nt, t.hash.foldlM (carry (newkey room (depth + 1))) (t.fresh size) = some nt ∧
      Carried t size t.hash nt := by
  have enough := sound.large
  have onward (done rest : List (Slot Value)) (nt : Table Value) (whole : t.hash = done ++ rest)
      (carried : Carried t size done nt) :
      ∃ later, rest.foldlM (carry (newkey room (depth + 1))) nt = some later ∧
        Carried t size t.hash later := by
    induction rest generalizing done nt with
    | nil => exact ⟨nt, rfl, by rwa [whole, List.append_nil]⟩
    | cons olde rest inductionHypothesis =>
        have step : ∃ later, carry (newkey room (depth + 1)) nt olde = some later ∧
            Carried t size (done ++ [olde]) later := by
          by_cases empty : olde.key = 0
          · exact carried.zero empty
          · have read : t.hash[done.length]? = some olde := by
              rw [whole, List.getElem?_append_right le_rfl, Nat.sub_self, List.getElem?_cons_zero]
            refine carried.append empty (fun entry among => ?_) ?_
              (sound.spent_of_used (sound.position read empty) ⟨olde, read, fun both => empty both.1⟩)
            · have apart := whole ▸ sound.apart
              exact (List.pairwise_append.mp apart).2.2 entry among olde List.mem_cons_self empty
            · have length := congrArg List.length whole
              rw [List.length_append, List.length_cons] at length
              rw [Table.size] at twice enough
              omega
        rcases step with ⟨later, made, carried⟩
        rw [List.foldlM_cons, made]
        exact inductionHypothesis (done ++ [olde]) later (by simp [whole]) carried
  exact onward [] t.hash _ rfl (carried_start t (le_trans (by omega) twice))

/-- A slot behind the first one has no key. -/
def forgets (t : Table Value) : Bool := t.hash.tail.any (·.key = 0)

def zeroValue (t : Table Value) : Option Value := t.hash[0]?.bind (·.value)

theorem foldl_zero {slots : List (Slot Value)} (value : Option Value)
    (holes : ∀ entry ∈ slots, entry.key = 0 → entry.value = none) :
    slots.foldl (fun value entry => if entry.key = 0 then entry.value else value) value =
      if slots.any (·.key = 0) then none else value := by
  induction slots generalizing value with
  | nil => exact rfl
  | cons entry slots inductionHypothesis =>
      have behind := inductionHypothesis (if entry.key = 0 then entry.value else value)
        fun other among => holes other (List.mem_cons_of_mem _ among)
      rw [List.foldl_cons, behind, List.any_cons]
      by_cases empty : entry.key = 0
      · rw [if_pos empty, holes entry List.mem_cons_self empty, decide_eq_true empty,
          Bool.true_or, ite_self, if_pos rfl]
      · rw [if_neg empty, decide_eq_false empty, Bool.false_or]

theorem Sound.lastZero_eq (sound : t.Sound) :
    lastZero t.hash = if t.forgets then none else t.zeroValue := by
  have holes (entry : Slot Value) (among : entry ∈ t.hash.tail) (empty : entry.key = 0) :
      entry.value = none := by
    rcases List.getElem?_of_mem among with ⟨i, read⟩
    rw [List.getElem?_tail] at read
    exact sound.holes (i + 1) entry read (Nat.le_add_left 1 i) empty
  rcases List.exists_cons_of_length_pos sound.pos with ⟨head, tail, whole⟩
  rw [forgets, zeroValue, lastZero, whole, List.tail_cons, List.foldl_cons]
  rw [whole, List.tail_cons] at holes
  have empty : head.key = 0 := (sound.zero head (by rw [whole]; rfl)).1
  rw [if_pos empty, foldl_zero _ holes]
  exact rfl

end Carrying

section Newkey

/-- The key is new in the table, and zero has kept its value unless the table has grown and
forgotten it. -/
structure Inserted (t later : Table Value) (key : Int64) (i : Nat) : Prop where
  sound : later.Sound
  entry : later.scatter.entry i = some (key, none)
  maps : ∀ contents, t.scatter.Maps contents → contents key = none →
    later.scatter.Maps (Function.update contents key (some none))
  zero : (later.size = t.size ∧ later.zeroValue = t.zeroValue) ∨
    (t.size < later.size ∧ later.zeroValue = if t.forgets then none else t.zeroValue)
  packed : t.scatter.Packed t.Claimed → later.scatter.Packed later.Claimed
  remembers : t.scatter.Packed t.Claimed → t.size < later.size → t.forgets = false
  spent : later.spent.card ≤ t.spent.card + 1
  sizes : later.size = t.size ∨
    (later.size = newSize (t.size * 2) ∧ t.size ≤ t.spent.card + 1)

theorem Placed.zeroValue {later : Table Value} (placed : Placed t later key i) :
    later.zeroValue = t.zeroValue := by
  rw [Table.zeroValue, placed.first]
  exact rfl

theorem Placed.spent_le {later : Table Value} (placed : Placed t later key i) :
    later.spent.card ≤ t.spent.card + 1 := by
  rcases placed.spent with ⟨x, fewer⟩
  exact (Finset.card_le_card fewer).trans (Finset.card_insert_le x t.spent)

theorem Sound.lower (sound : t.Sound) {left : Nat} (low : 1 ≤ left) (less : left ≤ t.lastfree) :
    { t with lastfree := left }.Sound where
  toFormed := sound.toFormed.lower low less
  chains := sound.chains.mono fun _ claimed => ⟨less.trans claimed.1, claimed.2⟩

theorem Carried.place {old : Table Value} {size : Nat} {slots : List (Slot Value)}
    (carried : Carried old size slots nt) (few : slots.length + 1 < size) (filled : key ≠ 0)
    (absent : contents slots key = none) :
    ∃ later i, nt.place key = some (later, some i) ∧ Placed nt later key i := by
  rcases carried.sound.place filled (carried.maps.missing absent) with
    found | ⟨left, -, -, -, used⟩
  · exact found
  · refine absurd used (carried.sound.not_full carried.packed (slots.map (·.key)) ?_ ?_)
    · exact fun key value holds => contents_of_mem ((carried.maps key value).mp holds)
    · rwa [List.length_map, carried.size]

/-- A table from which nothing has been taken is full when it grows. -/
theorem Sound.remembers (sound : t.Sound) (used : ∀ i, 1 ≤ i → i < t.lastfree → Used t.hash i)
    (packed : t.scatter.Packed t.Claimed) : t.forgets = false := by
  refine List.any_eq_false.mpr fun entry among => ?_
  rcases List.getElem?_of_mem among with ⟨i, read⟩
  rw [List.getElem?_tail] at read
  have filled : t.scatter.entry (i + 1) ≠ none := by
    rcases Nat.lt_or_ge (i + 1) t.lastfree with below | beyond
    · exact sound.slot_entry (used (i + 1) (Nat.le_add_left 1 i) below) packed
    · exact packed.full (i + 1) ⟨beyond, lt_of_slot read⟩
  rw [entry_of_slot read, Slot.item] at filled
  simpa using filled

theorem newkey_of_full {lower : Table Value} (sized : t.size ≠ 0)
    (made : t.place key = some (lower, none)) :
    newkey room (depth + 1) t key =
      (resizetable room (newkey room depth) lower (lower.size * 2)).bind fun grown =>
        if grown.2 then newkey room depth grown.1 key else some (grown.1, none) := by
  simp only [newkey, if_neg sized, Option.bind_eq_bind, Option.bind_some, if_true, made]
  exact rfl

theorem resizetable_of_small {size : Nat}
    {make : Table Value → Int64 → Option (Table Value × Option Nat)}
    (small : room < newSize size) : resizetable room make t size = some (t, false) :=
  if_pos small

theorem resizetable_of_carried {size : Nat}
    {make : Table Value → Int64 → Option (Table Value × Option Nat)}
    (enough : ¬ room < newSize size)
    (made : t.hash.foldlM (carry make) (t.fresh (newSize size)) = some nt) :
    resizetable room make t size = some (nt, true) := by
  rw [fresh] at made
  simp only [resizetable, if_neg enough, made, Option.bind_eq_bind, Option.bind_some]
  exact rfl

/-- `pbT_newkey` gives a place to a key that is not there, or there is no room to grow. -/
theorem Sound.newkey (sound : t.Sound) (room : Nat) (filled : key ≠ 0) (missing : t.scatter.Missing key) :
    (∃ later i, newkey room 2 t key = some (later, some i) ∧ Inserted t later key i) ∨
      ∃ left, newkey room 2 t key = some ({ t with lastfree := left }, none) ∧
        { t with lastfree := left }.Sound ∧ room < newSize (t.size * 2) ∧
        { t with lastfree := left }.spent ⊆ t.spent ∧ t.size ≤ t.spent.card + 1 ∧
        (t.scatter.Packed t.Claimed → t.scatter.Packed { t with lastfree := left }.Claimed) := by
  rcases sound.place filled missing with ⟨later, i, made, placed⟩ | ⟨left, made, low, less, used⟩
  · refine .inl ⟨later, i, newkey_of_place room 1 sound.pos.ne' made (Option.some_ne_none i), ?_⟩
    exact {
      sound := placed.sound
      entry := placed.entry
      maps := placed.maps
      zero := .inl ⟨placed.size, placed.zeroValue⟩
      packed := placed.packed
      remembers := fun _ grown => absurd placed.size grown.ne'
      spent := placed.spent_le
      sizes := .inl placed.size }
  · have lower := sound.lower low less
    have called : Table.newkey room 2 t key =
        (resizetable room (Table.newkey room 1) { t with lastfree := left } (t.size * 2)).bind
          fun grown => if grown.2 then Table.newkey room 1 grown.1 key
            else some (grown.1, none) := newkey_of_full sound.pos.ne' made
    by_cases small : room < newSize (t.size * 2)
    · refine .inr ⟨left, ?_, lower, small, sound.spent_lower used, sound.spent_full used,
        fun packed => ⟨packed.ends, fun i claimed => ?_⟩⟩
      swap
      · rcases Nat.lt_or_ge i t.lastfree with below | beyond
        · exact sound.slot_entry (used i (low.trans claimed.1) below) packed
        · exact packed.full i ⟨beyond, claimed.2⟩
      rw [called, resizetable_of_small small]
      exact rfl
    · refine .inl ?_
      have twice := le_newSize (t.size * 2)
      have large := sound.large
      rcases lower.carry_all twice room 0 with ⟨nt, carried, spec⟩
      have absent : contents t.hash key = none := by
        cases found : contents t.hash key with
        | none => exact rfl
        | some value => exact absurd ((sound.maps_contents key value).mpr found) (missing value)
      rcases spec.place (by change t.size + 1 < _; omega) filled absent with
        ⟨later, i, found, placed⟩
      refine ⟨later, i, ?_, ?_⟩
      · rw [called, resizetable_of_carried small carried, Option.bind_some]
        exact newkey_of_place room 0 spec.sound.pos.ne' found (Option.some_ne_none i)
      · exact {
          sound := placed.sound
          entry := placed.entry
          maps := fun held maps absent => by
            have same := sound.maps_contents.unique maps
            exact same ▸ placed.maps _ spec.maps (same ▸ absent)
          zero := by
            refine .inr ⟨?_, ?_⟩
            · rw [placed.size, spec.size]
              omega
            · rw [placed.zeroValue, zeroValue, spec.first]
              exact lower.lastZero_eq
          packed := fun _ => placed.packed spec.packed
          remembers := fun packed _ => sound.remembers used packed
          spent := by
            have carriedOver := spec.spent.trans (Finset.card_filter_le _ _)
            have kept : { t with lastfree := left }.spent.card ≤ t.spent.card :=
              Finset.card_le_card (sound.spent_lower used)
            exact placed.spent_le.trans (Nat.succ_le_succ (carriedOver.trans kept))
          sizes := .inr ⟨placed.size.trans spec.size, sound.spent_full used⟩ }

theorem newkey_inittable_of_small (small : room < newSize 0) :
    Table.newkey room (depth + 1) (inittable : Table Value) key = some (inittable, none) := by
  have sized : (inittable : Table Value).size = 0 := rfl
  simp only [Table.newkey]
  rw [if_pos sized, sized, Nat.zero_mul, resizetable_of_small small]
  exact rfl

theorem newkey_inittable {placed : Table Value × Option Nat} (enough : ¬ room < newSize 0)
    (made : (fresh inittable (newSize 0)).place key = some placed) (found : placed.2 ≠ none) :
    Table.newkey room (depth + 1) (inittable : Table Value) key = some placed := by
  have sized : (inittable : Table Value).size = 0 := rfl
  simp only [Table.newkey]
  rw [if_pos sized, sized, Nat.zero_mul, resizetable_of_carried enough rfl]
  simp only [Option.bind_eq_bind, Option.bind_some, if_true, made, if_neg found]
  exact rfl

theorem place_fresh (Value : Type) (filled : key ≠ 0) :
    ∃ later i, (fresh (inittable : Table Value) (newSize 0)).place key = some (later, some i) ∧
      Inserted inittable later key i := by
  have large := newSize_large 0
  have start := carried_start (inittable : Table Value) large
  rcases start.place (by rw [List.length_nil]; omega) filled (if_neg filled) with
    ⟨later, i, made, placed⟩
  refine ⟨later, i, made, ?_⟩
  exact {
    sound := placed.sound
    entry := placed.entry
    maps := fun held maps absent => by
      have same : contents ([] : List (Slot Value)) = held := by
        refine Scatter.Maps.unique (s := (inittable : Table Value).scatter) (fun k v => ?_) maps
        constructor
        · rintro ⟨j, stored⟩
          cases stored
        · exact fun found => absurd (contents_of_mem found) List.not_mem_nil
      exact same ▸ placed.maps _ start.maps (same ▸ absent)
    zero := by
      refine .inr ⟨?_, ?_⟩
      · rw [placed.size, fresh_size]
        exact Nat.lt_of_lt_of_le (Nat.succ_pos 7) large
      · rw [placed.zeroValue]
        exact start.first
    packed := fun _ => placed.packed start.packed
    remembers := fun _ _ => rfl
    spent := by
      refine placed.spent_le.trans (Nat.succ_le_succ ?_)
      rw [fresh_spent, Finset.card_empty]
      exact Nat.zero_le _
    sizes := .inr ⟨placed.size.trans (fresh_size _ _), Nat.zero_le _⟩ }

end Newkey

end Table

end CrossOver.Lua.Pb
