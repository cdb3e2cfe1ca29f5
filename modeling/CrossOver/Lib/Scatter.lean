import Mathlib.Data.Finset.Card
import Mathlib.Logic.Function.Basic
import Mathlib.Logic.Relation

/-!
# Scatter tables with chains

An open table in which every position may hold an entry and may lead to a next position.
A key is looked for along the chain from its main position.  An entry that stands at a
place that is not its main position gives way to one whose main position it is.
-/

namespace CrossOver.Lib

structure Scatter (Index Key Value : Type) where
  entry : Index → Option (Key × Value)
  next : Index → Option Index

namespace Scatter

variable {Index Key Value : Type} {s : Scatter Index Key Value} {home : Key → Index}
  {claimed : Index → Prop} {i j t p f : Index} {k : Key} {v w : Value}

/-- The chain from one position comes to another one. -/
def Leads (s : Scatter Index Key Value) : Index → Index → Prop :=
  Relation.ReflTransGen fun i j => s.next i = some j

theorem Leads.refl : s.Leads i i := Relation.ReflTransGen.refl

theorem Leads.step (leads : s.Leads i j) (link : s.next j = some t) : s.Leads i t :=
  Relation.ReflTransGen.tail leads link

theorem Leads.behind (link : s.next i = some t) (leads : s.Leads t j) : s.Leads i j :=
  Relation.ReflTransGen.head link leads

theorem Leads.trans (first : s.Leads i j) (second : s.Leads j t) : s.Leads i t :=
  Relation.ReflTransGen.trans first second

theorem Leads.cases (leads : s.Leads i j) : i = j ∨ ∃ t, s.next i = some t ∧ s.Leads t j :=
  Relation.ReflTransGen.cases_head leads

theorem Leads.of_end (leads : s.Leads i j) (last : s.next i = none) : i = j := by
  rcases leads.cases with same | ⟨t, link, -⟩
  · exact same
  · cases last.symm.trans link

/-- Every entry is on the chain from its main position; no two chains join; what a
position leads to is claimed; and nothing whose main position holds a guest is stored. -/
structure Sound (home : Key → Index) (claimed : Index → Prop) (s : Scatter Index Key Value) :
    Prop where
  reached : ∀ i k v, s.entry i = some (k, v) → s.Leads (home k) i
  once : ∀ i j k v w, s.entry i = some (k, v) → s.entry j = some (k, w) → i = j
  joined : ∀ i j t, s.next i = some t → s.next j = some t → i = j
  claims : ∀ i t, s.next i = some t → claimed t
  guest : ∀ i j k l v w, s.entry i = some (k, v) → home k ≠ i → s.entry j = some (l, w) →
    home l ≠ i
  ranked : ∃ rank : Index → Nat, ∀ i t, s.next i = some t → rank t < rank i

theorem Sound.mono {more : Index → Prop} (sound : s.Sound home claimed)
    (weaker : ∀ i, claimed i → more i) : s.Sound home more :=
  { sound with claims := fun i t link => weaker t (sound.claims i t link) }

theorem rank_le {rank : Index → Nat} (decreases : ∀ i t, s.next i = some t → rank t < rank i)
    (leads : s.Leads i j) : rank j ≤ rank i := by
  induction leads with
  | refl => exact le_rfl
  | tail _ link inductionHypothesis => exact (decreases _ _ link).le.trans inductionHypothesis

theorem Sound.next_ne (sound : s.Sound home claimed) (link : s.next i = some t) : t ≠ i := by
  rcases sound.ranked with ⟨rank, decreases⟩
  rintro rfl
  exact lt_irrefl _ (decreases _ _ link)

/-- Nothing whose main position is free and at the end of its chain is stored. -/
theorem Sound.no_home (sound : s.Sound home claimed) (free : s.entry f = none)
    (last : s.next f = none) (stored : s.entry i = some (k, v)) : home k ≠ f := by
  rintro rfl
  have same := (sound.reached i k v stored).of_end last
  rw [← same, free] at stored
  cases stored

section Walks

/-- The walk along a chain to a key: `none` when it has not ended in time, else the
position of the key, if it has one. -/
def search [DecidableEq Key] (s : Scatter Index Key Value) (key : Key) :
    Nat → Index → Option (Option Index)
  | 0, _ => none
  | fuel + 1, i =>
      if (s.entry i).map Prod.fst = some key then some (some i)
      else match s.next i with
        | none => some none
        | some t => search s key fuel t

/-- The walk along a chain to the position in front of another one. -/
def before [DecidableEq Index] (s : Scatter Index Key Value) (i : Index) :
    Nat → Index → Option Index
  | 0, _ => none
  | fuel + 1, on =>
      match s.next on with
      | none => none
      | some t => if t = i then some on else before s i fuel t

/-- The chain from the position stays within so many positions. -/
def Within (s : Scatter Index Key Value) (fuel : Nat) (i : Index) : Prop :=
  ∃ positions : Finset Index, positions.card ≤ fuel ∧ ∀ t, s.Leads i t → t ∈ positions

theorem Within.positive {fuel : Nat} (within : s.Within fuel i) : 0 < fuel := by
  rcases within with ⟨positions, few, inside⟩
  exact lt_of_lt_of_le (Finset.card_pos.mpr ⟨i, inside i .refl⟩) few

/-- One position less is left behind each step. -/
theorem Within.next [DecidableEq Index] {fuel : Nat} (sound : s.Sound home claimed)
    (within : s.Within (fuel + 1) i) (link : s.next i = some t) : s.Within fuel t := by
  rcases within with ⟨positions, few, inside⟩
  rcases sound.ranked with ⟨rank, decreases⟩
  refine ⟨positions.erase i, ?_, fun u leads => ?_⟩
  · rw [Finset.card_erase_of_mem (inside i .refl)]
    exact Nat.sub_le_of_le_add few
  · refine Finset.mem_erase.mpr ⟨?_, inside u (.behind link leads)⟩
    rintro rfl
    exact absurd (rank_le decreases leads) (not_le.mpr (decreases _ _ link))

variable [DecidableEq Index] {fuel : Nat}

theorem before_found (sound : s.Sound home claimed) (within : s.Within fuel i)
    (leads : s.Leads i j) (different : i ≠ j) :
    ∃ p, s.before j fuel i = some p ∧ s.next p = some j := by
  induction fuel generalizing i with
  | zero => exact absurd within.positive (lt_irrefl 0)
  | succ fuel inductionHypothesis =>
      rcases leads.cases with same | ⟨t, link, leads⟩
      · exact absurd same different
      · simp only [before, link]
        split
        case isTrue same => exact ⟨i, rfl, same ▸ link⟩
        case isFalse other => exact inductionHypothesis (within.next sound link) leads other

variable [DecidableEq Key]

theorem search_found (sound : s.Sound home claimed) (within : s.Within fuel i)
    (leads : s.Leads i j) (stored : s.entry j = some (k, v)) :
    s.search k fuel i = some (some j) := by
  induction fuel generalizing i with
  | zero => exact absurd within.positive (lt_irrefl 0)
  | succ fuel inductionHypothesis =>
      rw [search]
      split
      case isTrue here =>
          rcases Option.map_eq_some_iff.mp here with ⟨⟨key, other⟩, held, rfl⟩
          rw [sound.once i j _ _ _ held stored]
      case isFalse other =>
          rcases leads.cases with rfl | ⟨t, link, leads⟩
          · rw [stored] at other
            exact absurd rfl other
          · rw [link]
            exact inductionHypothesis (within.next sound link) leads

theorem search_missing (sound : s.Sound home claimed) (within : s.Within fuel i)
    (missing : ∀ j v, s.entry j ≠ some (k, v)) : s.search k fuel i = some none := by
  induction fuel generalizing i with
  | zero => exact absurd within.positive (lt_irrefl 0)
  | succ fuel inductionHypothesis =>
      rw [search]
      split
      case isTrue here =>
          rcases Option.map_eq_some_iff.mp here with ⟨⟨key, other⟩, held, rfl⟩
          exact absurd held (missing i other)
      case isFalse =>
          cases link : s.next i with
          | none => rfl
          | some t => exact inductionHypothesis (within.next sound link)

end Walks

section Operations

/-- The key has the value somewhere in the table. -/
def Holds (s : Scatter Index Key Value) (k : Key) (v : Value) : Prop :=
  ∃ i, s.entry i = some (k, v)

def Missing (s : Scatter Index Key Value) (k : Key) : Prop := ∀ v, ¬ s.Holds k v

/-- A position that nothing leads to and that leads to nothing. -/
structure Free (claimed : Index → Prop) (s : Scatter Index Key Value) (f : Index) : Prop where
  unclaimed : ¬ claimed f
  empty : s.entry f = none
  last : s.next f = none

theorem Free.not_next (free : s.Free claimed f) (sound : s.Sound home claimed) :
    s.next i ≠ some f := fun link => free.unclaimed (sound.claims i f link)

variable [DecidableEq Index]

theorem update_eq_some {Item : Type} {g : Index → Option Item} {item found : Item}
    (stored : Function.update g i (some item) j = some found) :
    (j = i ∧ found = item) ∨ (j ≠ i ∧ g j = some found) := by
  by_cases same : j = i
  · subst same
    rw [Function.update_self] at stored
    exact .inl ⟨rfl, (Option.some.inj stored).symm⟩
  · rw [Function.update_of_ne same] at stored
    exact .inr ⟨same, stored⟩

/-- Put an entry in a place. -/
def settle (s : Scatter Index Key Value) (i : Index) (entry : Key × Value) :
    Scatter Index Key Value :=
  { s with entry := Function.update s.entry i (some entry) }

/-- Take the entry of a place away; the chain stays. -/
def clear (s : Scatter Index Key Value) (i : Index) : Scatter Index Key Value :=
  { s with entry := Function.update s.entry i none }

/-- Put an entry in a free place, second in the chain from its main position. -/
def hook (s : Scatter Index Key Value) (f i : Index) (entry : Key × Value) :
    Scatter Index Key Value where
  entry := Function.update s.entry f (some entry)
  next := Function.update (Function.update s.next i (some f)) f (s.next i)

/-- Move the guest of a place to a free one, and put the entry there in its stead; `p` is
the position in front of the guest. -/
def evict (s : Scatter Index Key Value) (f i p : Index) (entry : Key × Value) :
    Scatter Index Key Value where
  entry := Function.update (Function.update s.entry f (s.entry i)) i (some entry)
  next := Function.update (Function.update (Function.update s.next p (some f)) f (s.next i)) i
    none

theorem settle_entry (s : Scatter Index Key Value) (i : Index) (entry : Key × Value) :
    (s.settle i entry).entry = Function.update s.entry i (some entry) := rfl

theorem clear_entry (s : Scatter Index Key Value) (i : Index) :
    (s.clear i).entry = Function.update s.entry i none := rfl

theorem hook_entry (s : Scatter Index Key Value) (f i : Index) (entry : Key × Value) :
    (s.hook f i entry).entry = Function.update s.entry f (some entry) := rfl

theorem evict_entry (s : Scatter Index Key Value) (f i p : Index) (entry : Key × Value) :
    (s.evict f i p entry).entry =
      Function.update (Function.update s.entry f (s.entry i)) i (some entry) := rfl

theorem Sound.settle (sound : s.Sound home claimed)
    (nowhere : ∀ j w, s.entry j = some (k, w) → j = i)
    (place : home k = i ∨ ∃ w, s.entry i = some (k, w)) :
    (s.settle i (k, v)).Sound home claimed where
  reached j l w stored := by
    rcases update_eq_some stored with ⟨rfl, found⟩ | ⟨-, stored⟩
    · cases found
      rcases place with here | ⟨w, stored⟩
      · exact here ▸ .refl
      · exact sound.reached _ _ _ stored
    · exact sound.reached _ _ _ stored
  once a b l u w first second := by
    rcases update_eq_some first with ⟨rfl, found⟩ | ⟨-, old⟩
    · rcases update_eq_some second with ⟨rfl, -⟩ | ⟨-, other⟩
      · exact rfl
      · cases found
        exact (nowhere _ _ other).symm
    · rcases update_eq_some second with ⟨rfl, found⟩ | ⟨-, other⟩
      · cases found
        exact nowhere _ _ old
      · exact sound.once _ _ _ _ _ old other
  joined := sound.joined
  claims := sound.claims
  guest a b l m u w first away second := by
    rcases update_eq_some first with ⟨rfl, found⟩ | ⟨apart, old⟩
    · cases found
      rcases place with here | ⟨x, held⟩
      · exact absurd here away
      · rcases update_eq_some second with ⟨rfl, found⟩ | ⟨-, other⟩
        · cases found
          exact away
        · exact sound.guest _ _ _ _ _ _ held away other
    · rcases update_eq_some second with ⟨rfl, found⟩ | ⟨-, other⟩
      · cases found
        rcases place with here | ⟨x, held⟩
        · exact fun same => apart (same.symm.trans here)
        · exact sound.guest _ _ _ _ _ _ old away held
      · exact sound.guest _ _ _ _ _ _ old away other
  ranked := sound.ranked

theorem clear_eq_some (stored : (s.clear i).entry j = some (k, v)) :
    j ≠ i ∧ s.entry j = some (k, v) := by
  rw [clear_entry] at stored
  by_cases same : j = i
  · simp only [same, Function.update_self, reduceCtorEq] at stored
  · exact ⟨same, by simpa only [Function.update_of_ne same] using stored⟩

theorem Sound.clear (sound : s.Sound home claimed) (i : Index) :
    (s.clear i).Sound home claimed where
  reached _ _ _ stored := sound.reached _ _ _ (clear_eq_some stored).2
  once _ _ _ _ _ first second :=
    sound.once _ _ _ _ _ (clear_eq_some first).2 (clear_eq_some second).2
  joined := sound.joined
  claims := sound.claims
  guest _ _ _ _ _ _ first away second :=
    sound.guest _ _ _ _ _ _ (clear_eq_some first).2 away (clear_eq_some second).2
  ranked := sound.ranked

section Hook

variable {claims : Index → Prop} {entry : Key × Value} {a b : Index}

theorem hook_next (s : Scatter Index Key Value) (f i : Index) (entry : Key × Value) (j : Index) :
    (s.hook f i entry).next j =
      if j = f then s.next i else if j = i then some f else s.next j := by
  simp only [hook, Function.update_apply]

theorem hook_next_cases (link : (s.hook f i entry).next j = some t) :
    (j = f ∧ s.next i = some t) ∨ (j = i ∧ t = f) ∨ (j ≠ i ∧ s.next j = some t) := by
  rw [hook_next] at link
  split at link
  case isTrue same => exact .inl ⟨same, link⟩
  case isFalse =>
      split at link
      case isTrue same => exact .inr (.inl ⟨same, (Option.some.inj link).symm⟩)
      case isFalse other => exact .inr (.inr ⟨other, link⟩)

theorem Leads.hook (free : s.Free claimed f) (entry : Key × Value) (leads : s.Leads a b) :
    (s.hook f i entry).Leads a b := by
  induction leads with
  | refl => exact .refl
  | @tail b c _ link inductionHypothesis =>
      have other : b ≠ f := by
        rintro rfl
        cases free.last.symm.trans link
      by_cases here : b = i
      · refine (inductionHypothesis.step (t := f) ?_).step ?_
        · rw [hook_next, if_neg other, if_pos here]
        · rw [hook_next, if_pos rfl, ← here, link]
      · refine inductionHypothesis.step ?_
        rw [hook_next, if_neg other, if_neg here, link]

theorem Sound.hook_joined (sound : s.Sound home claimed) (free : s.Free claimed f)
    (first : (s.hook f i entry).next a = some t) (second : (s.hook f i entry).next b = some t) :
    a = b := by
  rcases hook_next_cases first with ⟨rfl, old⟩ | ⟨rfl, rfl⟩ | ⟨away, old⟩
  · rcases hook_next_cases second with ⟨rfl, -⟩ | ⟨-, rfl⟩ | ⟨away, other⟩
    · exact rfl
    · exact absurd old (free.not_next sound)
    · exact absurd (sound.joined _ _ _ other old) away
  · rcases hook_next_cases second with ⟨-, other⟩ | ⟨same, -⟩ | ⟨-, other⟩
    · exact absurd other (free.not_next sound)
    · exact same.symm
    · exact absurd other (free.not_next sound)
  · rcases hook_next_cases second with ⟨-, other⟩ | ⟨-, rfl⟩ | ⟨-, other⟩
    · exact absurd (sound.joined _ _ _ old other) away
    · exact absurd old (free.not_next sound)
    · exact sound.joined _ _ _ old other

/-- The new position fits between the rank of the main position and those behind it. -/
theorem Sound.hook_ranked (sound : s.Sound home claimed) (free : s.Free claimed f)
    (apart : f ≠ i) :
    ∃ rank : Index → Nat, ∀ j t, (s.hook f i entry).next j = some t → rank t < rank j := by
  rcases sound.ranked with ⟨rank, decreases⟩
  refine ⟨fun j => if j = f then 2 * rank i else 2 * rank j + 1, fun j t link => ?_⟩
  have behind {x : Index} (found : s.next x = some t) : t ≠ f := by
    rintro rfl
    exact free.not_next sound found
  rcases hook_next_cases link with ⟨rfl, old⟩ | ⟨rfl, rfl⟩ | ⟨-, old⟩
  · have lower := decreases _ _ old
    simp only [if_true, behind old, if_false]
    omega
  · simp only [if_true, apart.symm, if_false]
    omega
  · have lower := decreases _ _ old
    have other : j ≠ f := by
      rintro rfl
      cases free.last.symm.trans old
    simp only [other, behind old, if_false]
    omega

theorem Sound.hook {p : Key} (sound : s.Sound home claimed) (free : s.Free claimed f)
    (missing : s.Missing k) (held : s.entry i = some (p, w)) (stays : home p = i)
    (here : home k = i) (weaker : ∀ j, claimed j → claims j) (taken : claims f) :
    (s.hook f i (k, v)).Sound home claims := by
  have apart : f ≠ i := by
    rintro rfl
    cases free.empty.symm.trans held
  exact {
    reached := fun j l u stored => by
      rcases update_eq_some stored with ⟨rfl, found⟩ | ⟨-, old⟩
      · cases found
        refine Leads.step (j := i) (here ▸ .refl) ?_
        rw [hook_next, if_neg apart.symm, if_pos rfl]
      · exact (sound.reached _ _ _ old).hook free _
    once := fun a b l u x first second => by
      rcases update_eq_some first with ⟨rfl, found⟩ | ⟨-, old⟩
      · rcases update_eq_some second with ⟨rfl, -⟩ | ⟨-, other⟩
        · exact rfl
        · cases found
          exact absurd ⟨b, other⟩ (missing x)
      · rcases update_eq_some second with ⟨rfl, found⟩ | ⟨-, other⟩
        · cases found
          exact absurd ⟨a, old⟩ (missing u)
        · exact sound.once _ _ _ _ _ old other
    joined := fun _ _ _ => sound.hook_joined free
    claims := fun j t link => by
      rcases hook_next_cases link with ⟨-, link⟩ | ⟨-, rfl⟩ | ⟨-, link⟩
      · exact weaker t (sound.claims _ _ link)
      · exact taken
      · exact weaker t (sound.claims _ _ link)
    guest := fun a b l m u x first away second => by
      rcases update_eq_some first with ⟨rfl, -⟩ | ⟨-, old⟩
      · rcases update_eq_some second with ⟨-, found⟩ | ⟨-, other⟩
        · cases found
          exact here ▸ apart.symm
        · exact sound.no_home free.empty free.last other
      · rcases update_eq_some second with ⟨-, found⟩ | ⟨-, other⟩
        · cases found
          rintro rfl
          rw [here, held] at old
          cases old
          exact away (here ▸ stays)
        · exact sound.guest _ _ _ _ _ _ old away other
    ranked := sound.hook_ranked free apart }

end Hook

section Evict

variable {claims : Index → Prop} {entry : Key × Value} {a b : Index}

theorem evict_next (s : Scatter Index Key Value) (f i p : Index) (entry : Key × Value)
    (j : Index) :
    (s.evict f i p entry).next j =
      if j = i then none else if j = f then s.next i else if j = p then some f else s.next j := by
  simp only [evict, Function.update_apply]

theorem evict_next_cases (link : (s.evict f i p entry).next j = some t) : j ≠ i ∧
    ((j = f ∧ s.next i = some t) ∨ (j = p ∧ t = f) ∨ (j ≠ p ∧ s.next j = some t)) := by
  rw [evict_next] at link
  split at link
  case isTrue => cases link
  case isFalse away =>
      refine ⟨away, ?_⟩
      split at link
      case isTrue same => exact .inl ⟨same, link⟩
      case isFalse =>
          split at link
          case isTrue same => exact .inr (.inl ⟨same, (Option.some.inj link).symm⟩)
          case isFalse other => exact .inr (.inr ⟨other, link⟩)

theorem evict_eq_some (stored : (s.evict f i p entry).entry j = some (k, v)) :
    (j = i ∧ (k, v) = entry) ∨ (j ≠ i ∧ j = f ∧ s.entry i = some (k, v)) ∨
      (j ≠ i ∧ s.entry j = some (k, v)) := by
  rcases update_eq_some stored with new | ⟨other, old⟩
  · exact .inl new
  · rw [Function.update_apply] at old
    split at old
    case isTrue same => exact .inr (.inl ⟨other, same, old⟩)
    case isFalse => exact .inr (.inr ⟨other, old⟩)

/-- What a chain comes to, it still comes to; in the stead of the guest, to its new place. -/
theorem Leads.evict (sound : s.Sound home claimed) (free : s.Free claimed f)
    (front : s.next p = some i) (entry : Key × Value) (leads : s.Leads a b) (start : a ≠ i) :
    (s.evict f i p entry).Leads a (if b = i then f else b) := by
  have apart : f ≠ i := by
    rintro rfl
    exact free.not_next sound front
  induction leads with
  | refl =>
      rw [if_neg start]
      exact .refl
  | @tail b c _ link inductionHypothesis =>
      have other : b ≠ f := by
        rintro rfl
        cases free.last.symm.trans link
      refine inductionHypothesis.step ?_
      by_cases here : b = i
      · subst here
        rw [if_pos rfl, evict_next, if_neg apart, if_pos rfl, link,
          if_neg (sound.next_ne link)]
      · rw [if_neg here, evict_next, if_neg here, if_neg other]
        by_cases before : b = p
        · subst before
          rw [if_pos rfl, if_pos (Option.some.inj (link.symm.trans front))]
        · have elsewhere : c ≠ i := by
            rintro rfl
            exact before (sound.joined _ _ _ link front)
          rw [if_neg before, if_neg elsewhere, link]

theorem Sound.evict_joined (sound : s.Sound home claimed) (free : s.Free claimed f)
    (front : s.next p = some i) (first : (s.evict f i p entry).next a = some t)
    (second : (s.evict f i p entry).next b = some t) : a = b := by
  rcases evict_next_cases first with ⟨here, ⟨rfl, old⟩ | ⟨rfl, rfl⟩ | ⟨-, old⟩⟩
  · rcases evict_next_cases second with ⟨there, ⟨rfl, -⟩ | ⟨-, rfl⟩ | ⟨-, other⟩⟩
    · exact rfl
    · exact absurd old (free.not_next sound)
    · exact absurd (sound.joined _ _ _ other old) there
  · rcases evict_next_cases second with ⟨-, ⟨-, other⟩ | ⟨same, -⟩ | ⟨-, other⟩⟩
    · exact absurd other (free.not_next sound)
    · exact same.symm
    · exact absurd other (free.not_next sound)
  · rcases evict_next_cases second with ⟨-, ⟨-, other⟩ | ⟨-, rfl⟩ | ⟨-, other⟩⟩
    · exact absurd (sound.joined _ _ _ old other) here
    · exact absurd old (free.not_next sound)
    · exact sound.joined _ _ _ old other

/-- The new place takes the rank of the old one, which nothing leads to any more. -/
theorem Sound.evict_ranked (sound : s.Sound home claimed) (free : s.Free claimed f)
    (front : s.next p = some i) :
    ∃ rank : Index → Nat, ∀ j t, (s.evict f i p entry).next j = some t → rank t < rank j := by
  rcases sound.ranked with ⟨rank, decreases⟩
  refine ⟨fun j => if j = f then rank i else rank j, fun j t link => ?_⟩
  have behind {x : Index} (found : s.next x = some t) : t ≠ f := by
    rintro rfl
    exact free.not_next sound found
  rcases evict_next_cases link with ⟨-, ⟨rfl, old⟩ | ⟨rfl, rfl⟩ | ⟨-, old⟩⟩
  · simp only [if_true, behind old, if_false]
    exact decreases _ _ old
  · have other : j ≠ t := by
      rintro rfl
      cases free.last.symm.trans front
    simp only [if_true, other, if_false]
    exact decreases _ _ front
  · have other : j ≠ f := by
      rintro rfl
      cases free.last.symm.trans old
    simp only [other, behind old, if_false]
    exact decreases _ _ old

theorem Sound.evict {g : Key} (sound : s.Sound home claimed) (free : s.Free claimed f)
    (missing : s.Missing k) (held : s.entry i = some (g, w)) (away : home g ≠ i)
    (front : s.next p = some i) (here : home k = i) (weaker : ∀ j, claimed j → claims j)
    (taken : claims f) : (s.evict f i p (k, v)).Sound home claims := by
  have apart : f ≠ i := by
    rintro rfl
    exact free.not_next sound front
  exact {
    reached := fun j l u stored => by
      rcases evict_eq_some stored with ⟨rfl, found⟩ | ⟨-, rfl, old⟩ | ⟨other, old⟩
      · cases found
        exact here ▸ .refl
      · have moved := (sound.reached _ _ _ old).evict sound free front (k, v)
          (sound.guest _ _ _ _ _ _ held away old)
        rwa [if_pos rfl] at moved
      · have kept := (sound.reached _ _ _ old).evict sound free front (k, v)
          (sound.guest _ _ _ _ _ _ held away old)
        rwa [if_neg other] at kept
    once := fun a b l u x first second => by
      rcases evict_eq_some first with ⟨rfl, found⟩ | ⟨_, rfl, old⟩ | ⟨here, old⟩
      · rcases evict_eq_some second with ⟨rfl, -⟩ | ⟨-, -, other⟩ | ⟨-, other⟩
        · exact rfl
        · cases found
          exact absurd ⟨_, other⟩ (missing x)
        · cases found
          exact absurd ⟨_, other⟩ (missing x)
      · rcases evict_eq_some second with ⟨rfl, found⟩ | ⟨-, same, -⟩ | ⟨there, other⟩
        · cases found
          exact absurd ⟨_, old⟩ (missing u)
        · exact same.symm
        · exact absurd (sound.once _ _ _ _ _ other old) there
      · rcases evict_eq_some second with ⟨rfl, found⟩ | ⟨-, -, other⟩ | ⟨-, other⟩
        · cases found
          exact absurd ⟨_, old⟩ (missing u)
        · exact absurd (sound.once _ _ _ _ _ old other) here
        · exact sound.once _ _ _ _ _ old other
    joined := fun _ _ _ => sound.evict_joined free front
    claims := fun j t link => by
      rcases evict_next_cases link with ⟨-, ⟨-, old⟩ | ⟨-, rfl⟩ | ⟨-, old⟩⟩
      · exact weaker t (sound.claims _ _ old)
      · exact taken
      · exact weaker t (sound.claims _ _ old)
    guest := fun a b l m u x first strange second => by
      have homeless {c : Index} {y : Value} (stored : s.entry c = some (m, y)) : home m ≠ f :=
        sound.no_home free.empty free.last stored
      rcases evict_eq_some first with ⟨rfl, found⟩ | ⟨-, rfl, -⟩ | ⟨other, old⟩
      · cases found
        exact absurd here strange
      · rcases evict_eq_some second with ⟨-, found⟩ | ⟨-, -, stored⟩ | ⟨-, stored⟩
        · cases found
          exact here ▸ apart.symm
        · exact homeless stored
        · exact homeless stored
      · rcases evict_eq_some second with ⟨-, found⟩ | ⟨-, -, stored⟩ | ⟨-, stored⟩
        · cases found
          exact here ▸ other.symm
        · exact sound.guest _ _ _ _ _ _ old strange stored
        · exact sound.guest _ _ _ _ _ _ old strange stored
    ranked := sound.evict_ranked free front }

end Evict

section Packed

variable {claims : Index → Prop} {entry : Key × Value}

/-- No entry has been taken away: what leads on is filled, and so is what is claimed. -/
structure Packed (claimed : Index → Prop) (s : Scatter Index Key Value) : Prop where
  ends : ∀ i, s.entry i = none → s.next i = none
  full : ∀ i, claimed i → s.entry i ≠ none

theorem update_eq_none {Item : Type} {g : Index → Option Item} {item : Item}
    (stored : Function.update g i (some item) j = none) : j ≠ i ∧ g j = none := by
  by_cases same : j = i
  · rw [same, Function.update_self] at stored
    cases stored
  · rw [Function.update_of_ne same] at stored
    exact ⟨same, stored⟩

theorem Packed.settle (packed : s.Packed claimed) (i : Index) (entry : Key × Value) :
    (s.settle i entry).Packed claimed where
  ends j empty := packed.ends j (update_eq_none empty).2
  full j taken empty := packed.full j taken (update_eq_none empty).2

theorem Packed.hook (packed : s.Packed claimed) (held : s.entry i ≠ none)
    (filled : ∀ j, claims j → j = f ∨ s.entry j ≠ none) : (s.hook f i entry).Packed claims where
  ends j empty := by
    rcases update_eq_none empty with ⟨away, old⟩
    have other : j ≠ i := by
      rintro rfl
      exact held old
    rw [hook_next, if_neg away, if_neg other, packed.ends j old]
  full j taken empty := by
    rcases update_eq_none empty with ⟨away, old⟩
    exact (filled j taken).elim away fun held => held old

theorem Packed.evict (packed : s.Packed claimed) (front : s.next p = some i)
    (held : s.entry i ≠ none) (filled : ∀ j, claims j → j = f ∨ s.entry j ≠ none) :
    (s.evict f i p entry).Packed claims := by
  have old {j : Index} (empty : (s.evict f i p entry).entry j = none) :
      j ≠ f ∧ s.entry j = none := by
    rcases update_eq_none empty with ⟨-, empty⟩
    rw [Function.update_apply] at empty
    split at empty
    case isTrue => exact absurd empty held
    case isFalse other => exact ⟨other, empty⟩
  refine ⟨fun j empty => ?_, fun j taken empty => ?_⟩
  · have before : j ≠ p := by
      rintro rfl
      cases (packed.ends _ (old empty).2).symm.trans front
    rw [evict_next, if_neg (old empty).1, if_neg before, packed.ends j (old empty).2, ite_self]
  · exact (filled j taken).elim (old empty).1 fun held => held (old empty).2

end Packed

section Use

variable {entry : Key × Value}

/-- The position has an entry or leads on. -/
def InUse (s : Scatter Index Key Value) (i : Index) : Prop :=
  s.entry i ≠ none ∨ s.next i ≠ none

theorem InUse.of_settle (used : (s.settle i entry).InUse j) : j = i ∨ s.InUse j := by
  by_cases same : j = i
  · exact .inl same
  · rw [InUse, settle_entry, Function.update_of_ne same] at used
    exact .inr used

theorem InUse.of_clear (used : (s.clear i).InUse j) : s.InUse j := by
  by_cases same : j = i
  · rw [InUse, clear_entry, same, Function.update_self] at used
    exact .inr (same ▸ used.resolve_left fun wrong => wrong rfl)
  · rwa [InUse, clear_entry, Function.update_of_ne same] at used

theorem InUse.of_hook (held : s.entry i ≠ none) (used : (s.hook f i entry).InUse j) :
    j = f ∨ s.InUse j := by
  by_cases same : j = f
  · exact .inl same
  · by_cases here : j = i
    · exact .inr (.inl (here ▸ held))
    · rw [InUse, hook_next, if_neg same, if_neg here] at used
      refine .inr (used.imp_left fun filled => ?_)
      rwa [hook_entry, Function.update_of_ne same] at filled

theorem InUse.of_evict (held : s.entry i ≠ none) (front : s.next p ≠ none)
    (used : (s.evict f i p entry).InUse j) : j = f ∨ s.InUse j := by
  by_cases same : j = f
  · exact .inl same
  · by_cases here : j = i
    · exact .inr (.inl (here ▸ held))
    · by_cases before : j = p
      · exact .inr (.inr (before ▸ front))
      · rw [InUse, evict_next, if_neg here, if_neg same, if_neg before, evict_entry,
          Function.update_of_ne here, Function.update_of_ne same] at used
        exact .inr used

end Use

section Contents

variable [DecidableEq Key] {contents : Key → Option Value}

/-- The table is a table of these values. -/
def Maps (s : Scatter Index Key Value) (contents : Key → Option Value) : Prop :=
  ∀ k v, s.Holds k v ↔ contents k = some v

omit [DecidableEq Index] [DecidableEq Key] in
theorem Maps.missing (maps : s.Maps contents) (absent : contents k = none) : s.Missing k := by
  intro v holds
  rw [maps, absent] at holds
  cases holds

omit [DecidableEq Index] [DecidableEq Key] in
theorem Maps.unique {others : Key → Option Value} (maps : s.Maps contents)
    (maps' : s.Maps others) : contents = others := by
  funext k
  exact Option.ext fun v => (maps k v).symm.trans (maps' k v)

omit [DecidableEq Index] in
/-- One key has a new value, and every other key the value it had. -/
theorem Maps.store {later : Scatter Index Key Value} (maps : s.Maps contents)
    (new : later.Holds k v) (unique : ∀ u, later.Holds k u → u = v)
    (same : ∀ l u, l ≠ k → (later.Holds l u ↔ s.Holds l u)) :
    later.Maps (Function.update contents k (some v)) := by
  intro l u
  by_cases equal : l = k
  · subst equal
    rw [Function.update_self]
    refine ⟨fun holds => congrArg some (unique u holds).symm, fun found => ?_⟩
    cases found
    exact new
  · rw [Function.update_of_ne equal, same l u equal]
    exact maps l u

theorem Maps.settle (maps : s.Maps contents)
    (nowhere : ∀ j u, s.entry j = some (k, u) → j = i)
    (alone : ∀ l u, s.entry i = some (l, u) → l = k) :
    (s.settle i (k, v)).Maps (Function.update contents k (some v)) := by
  refine maps.store ⟨i, Function.update_self ..⟩ (fun u holds => ?_) fun l u other => ?_
  · rcases holds with ⟨j, stored⟩
    rcases update_eq_some stored with ⟨-, found⟩ | ⟨away, old⟩
    · cases found
      exact rfl
    · exact absurd (nowhere j u old) away
  · constructor
    · rintro ⟨j, stored⟩
      rcases update_eq_some stored with ⟨-, found⟩ | ⟨-, old⟩
      · cases found
        exact absurd rfl other
      · exact ⟨j, old⟩
    · rintro ⟨j, stored⟩
      refine ⟨j, ?_⟩
      have away : j ≠ i := by
        rintro rfl
        exact other (alone l u stored)
      rw [settle_entry, Function.update_of_ne away, stored]

theorem Maps.hook (maps : s.Maps contents) (absent : contents k = none)
    (free : s.entry f = none) :
    (s.hook f i (k, v)).Maps (Function.update contents k (some v)) := by
  apply maps.settle (i := f)
  · exact fun j u stored => absurd ⟨j, stored⟩ (maps.missing absent u)
  · intro l u stored
    cases free.symm.trans stored

theorem Maps.evict (maps : s.Maps contents) (absent : contents k = none)
    (free : s.entry f = none) (apart : f ≠ i) :
    (s.evict f i p (k, v)).Maps (Function.update contents k (some v)) := by
  have missing := maps.missing absent
  refine maps.store ⟨i, Function.update_self ..⟩ (fun u holds => ?_) fun l u other => ?_
  · rcases holds with ⟨j, stored⟩
    rcases evict_eq_some stored with ⟨-, found⟩ | ⟨-, -, old⟩ | ⟨-, old⟩
    · cases found
      exact rfl
    · exact absurd ⟨_, old⟩ (missing u)
    · exact absurd ⟨_, old⟩ (missing u)
  · constructor
    · rintro ⟨j, stored⟩
      rcases evict_eq_some stored with ⟨-, found⟩ | ⟨-, -, old⟩ | ⟨-, old⟩
      · cases found
        exact absurd rfl other
      · exact ⟨_, old⟩
      · exact ⟨_, old⟩
    · rintro ⟨j, stored⟩
      by_cases moved : j = i
      · refine ⟨f, ?_⟩
        rw [evict_entry, Function.update_of_ne apart, Function.update_self, ← moved, stored]
      · have elsewhere : j ≠ f := by
          rintro rfl
          cases free.symm.trans stored
        refine ⟨j, ?_⟩
        rw [evict_entry, Function.update_of_ne moved, Function.update_of_ne elsewhere, stored]

theorem Maps.clear (maps : s.Maps contents) (sound : s.Sound home claimed)
    (held : s.entry i = some (k, w)) :
    (s.clear i).Maps (Function.update contents k none) := by
  intro l u
  by_cases equal : l = k
  · subst equal
    rw [Function.update_self]
    constructor
    · rintro ⟨j, stored⟩
      rcases clear_eq_some stored with ⟨away, old⟩
      exact absurd (sound.once _ _ _ _ _ old held) away
    · intro found
      cases found
  · rw [Function.update_of_ne equal, ← maps l u]
    refine exists_congr fun j => ⟨fun stored => (clear_eq_some stored).2, fun stored => ?_⟩
    have away : j ≠ i := by
      rintro rfl
      rw [held] at stored
      cases stored
      exact equal rfl
    rw [clear_entry, Function.update_of_ne away, stored]

end Contents

end Operations

end Scatter

end CrossOver.Lib
