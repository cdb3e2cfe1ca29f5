import CrossOver.Lua.Hostile
import CrossOver.Lua.OpenTables

/-!
# How deep tables may be nested

`pack_one` counts its depth and `unpack_one` does not.  The decoder is as shallow as the
encoder if and only if no place of the bytes lies in more than `MAX_DEPTH` open tables;
then the encoder takes what the decoder returns.

`Sturdy` is what all values from the decoder have in common: then the encoder can
fail for nothing but the depth.  That depends on what is kept of the written tables.
-/

namespace CrossOver.Lua

open CrossOver.Lib LuaValue

/-! ## What is kept -/

section Kept

variable {rawlen : List Entry → Nat}

theorem keySlot_within (value : LuaValue) (left : Nat) :
    (keySlot value).Within left ↔ value.Within left := by
  unfold keySlot
  cases normal : value.normalizeKey with
  | error message => rfl
  | ok slot =>
      rcases normalizeKey_ok normal with rfl | ⟨bits, i, rfl, rfl⟩
      · rfl
      · cases left <;> rfl

theorem rawEqual_key (key : Written) (other : LuaValue) :
    rawEqual (keySlot (key.value rawlen)) other = rawEqual key.key other := by
  cases key with
  | flat value => rfl
  | table assignments => cases other <;> rfl

/-- An entry is an old one that is not assigned again, or a kept assignment. -/
theorem mem_stored {assignments : List (Written × Written)} {entries : List Entry}
    {entry : Entry} :
    entry ∈ stored rawlen assignments entries ↔
      (entry ∈ entries ∧ ∀ assignment ∈ assignments, rawEqual assignment.1.key entry.1 = false) ∨
        ∃ assignment ∈ Written.kept assignments,
          entry = (keySlot (assignment.1.value rawlen), assignment.2.value rawlen) := by
  induction assignments generalizing entries with
  | nil => simp [stored, Written.kept]
  | cons assignment rest inductionHypothesis =>
      obtain ⟨key, value⟩ := assignment
      have again : (∀ later ∈ rest, rawEqual later.1.key (keySlot (key.value rawlen)) = false) ↔
          rest.any (fun later => rawEqual key.key later.1.key) = false := by
        rw [List.any_eq_false]
        refine forall₂_congr fun later _ => ?_
        rw [rawEqual_comm, rawEqual_key, Bool.not_eq_true]
      rw [stored, inductionHypothesis, mem_setSlot, rawEqual_key, Written.value_isNil,
        List.forall_mem_cons]
      by_cases survives : value.isNil = false ∧
          rest.any (fun later => rawEqual key.key later.1.key) = false
      · have keeps : Written.kept ((key, value) :: rest) = (key, value) :: Written.kept rest := by
          rw [Written.kept, survives.1, survives.2]
          rfl
        simp only [keeps, List.mem_cons, or_and_right, exists_or, exists_eq_left]
        constructor
        · rintro ((⟨⟨among, other⟩, untouched⟩ | ⟨⟨-, rfl⟩, -⟩) | later)
          · exact Or.inl ⟨among, other, untouched⟩
          · exact Or.inr (Or.inl rfl)
          · exact Or.inr (Or.inr later)
        · rintro (⟨among, other, untouched⟩ | rfl | later)
          · exact Or.inl (Or.inl ⟨⟨among, other⟩, untouched⟩)
          · exact Or.inl (Or.inr ⟨⟨survives.1, rfl⟩, again.mpr survives.2⟩)
          · exact Or.inr later
      · have drops : Written.kept ((key, value) :: rest) = Written.kept rest := by
          rw [Written.kept, if_pos]
          rcases not_and_or.mp survives with isNil | assigned
          · rw [Bool.or_eq_true]
            exact Or.inl (eq_true_of_ne_false isNil)
          · rw [Bool.or_eq_true]
            exact Or.inr (eq_true_of_ne_false assigned)
        rw [drops]
        constructor
        · rintro (⟨⟨among, other⟩ | ⟨isNil, rfl⟩, untouched⟩ | later)
          · exact Or.inl ⟨among, other, untouched⟩
          · exact absurd ⟨isNil, again.mp untouched⟩ survives
          · exact Or.inr later
        · rintro (⟨among, other, untouched⟩ | later)
          · exact Or.inl ⟨Or.inl ⟨among, other⟩, untouched⟩
          · exact Or.inr later

theorem value_within (w : Written) (left : Nat) :
    (w.value rawlen).Within left ↔ w.Within left := by
  induction left generalizing w with
  | zero => rfl
  | succ left inductionHypothesis =>
      cases w with
      | flat value => rfl
      | table assignments =>
          change (∀ entry ∈ stored rawlen assignments [], entry.1.Within left ∧ entry.2.Within left) ↔
            ∀ assignment ∈ Written.kept assignments,
              assignment.1.Within left ∧ assignment.2.Within left
          constructor
          · intro within assignment keeps
            have held : (keySlot (assignment.1.value rawlen), assignment.2.value rawlen) ∈
                stored rawlen assignments [] := mem_stored.mpr (Or.inr ⟨assignment, keeps, rfl⟩)
            obtain ⟨key, value⟩ := within _ held
            exact ⟨(inductionHypothesis _).mp ((keySlot_within _ left).mp key),
              (inductionHypothesis _).mp value⟩
          · intro within entry held
            obtain ⟨assignment, keeps, rfl⟩ :=
              (mem_stored.mp held).resolve_left fun old => List.not_mem_nil old.1
            obtain ⟨key, value⟩ := within assignment keeps
            exact ⟨(keySlot_within _ left).mpr ((inductionHypothesis _).mpr key),
              (inductionHypothesis _).mpr value⟩

end Kept

/-! ## What the decoder returns -/

/-- What `lua_rawlen` returns is zero or the index of a last element. -/
def IsBorder (border : Nat) (entries : List Entry) : Prop :=
  border = 0 ∨ (rawgeti entries border).isNil = false

structure Sturdy (value : LuaValue) : Prop where
  wellFormed : WellFormed value
  borders : ∀ metapairs border entries, Inside (.table metapairs border entries) value →
    IsBorder border entries

theorem Sturdy.flat {value : LuaValue} (wellFormed : WellFormed value)
    (noTable : ∀ metapairs border entries, ¬Inside (.table metapairs border entries) value) :
    Sturdy value := ⟨wellFormed, fun _ _ _ inside => absurd inside (noTable _ _ _)⟩

structure Filled (entries : List Entry) : Prop where
  sturdy : ∀ entry ∈ entries, Sturdy entry.1 ∧ Sturdy entry.2
  keys : ∀ entry ∈ entries, IsKey entry.1 ∧ entry.2.isNil = false
  distinct : entries.Pairwise fun first second => rawEqual first.1 second.1 = false

theorem Filled.setSlot {entries : List Entry} {slot value : LuaValue} (filled : Filled entries)
    (sturdySlot : Sturdy slot) (isKey : IsKey slot) (sturdyValue : Sturdy value) :
    Filled (Lua.setSlot entries slot value) where
  sturdy entry membership := by
    rcases mem_setSlot.mp membership with ⟨old, -⟩ | ⟨-, rfl⟩
    · exact filled.sturdy entry old
    · exact ⟨sturdySlot, sturdyValue⟩
  keys entry membership := by
    rcases mem_setSlot.mp membership with ⟨old, -⟩ | ⟨notNil, rfl⟩
    · exact filled.keys entry old
    · exact ⟨isKey, notNil⟩
  distinct := by
    unfold Lua.setSlot
    split_ifs with isNil present
    · exact filled.distinct.filter _
    · have sameKeys : ∀ entry : Entry,
          (if rawEqual slot entry.1 = true then (slot, value) else entry).1 = entry.1 := by
        intro entry
        split_ifs with same
        · exact rawEqual_eq same
        · rfl
      rw [List.pairwise_map]
      simpa only [sameKeys] using filled.distinct
    · rw [List.pairwise_append]
      refine ⟨filled.distinct, List.pairwise_singleton _ _, fun old among new isNew => ?_⟩
      rw [List.mem_singleton.mp isNew, rawEqual_comm]
      exact eq_false_of_ne_true fun same => present (List.any_eq_true.mpr ⟨old, among, same⟩)

theorem sturdy_closed {rawlen : List Entry → Nat}
    (borders : ∀ entries, IsBorder (rawlen entries) entries) (bytes : Bytes) {stop : Int}
    (short : stop < 2 ^ 31) : Closed rawlen bytes stop Sturdy Filled where
  nil := .flat .nil nofun
  boolean value := .flat (.boolean value) nofun
  integer value := .flat (.integer value) nofun
  number bits := .flat (.number bits) nofun
  lightuserdata address := .flat (.lightuserdata address) nofun
  string str _ length := .flat (.string str (by omega)) nofun
  empty := by
    refine ⟨fun entry membership => ?_, fun entry membership => ?_, .nil⟩
    · exact absurd membership List.not_mem_nil
    · exact absurd membership List.not_mem_nil
  set entries key value stored filled sturdyKey sturdyValue success := by
    obtain ⟨slot, normal, rfl⟩ := rawset_ok success
    rcases normalizeKey_ok normal with rfl | ⟨_, i, rfl, rfl⟩
    · have isKey : IsKey slot := by
        refine ⟨?_, normal⟩
        cases slot <;> first | rfl | cases normal
      exact filled.setSlot sturdyKey isKey sturdyValue
    · exact filled.setSlot (.flat (.integer i) nofun) ⟨rfl, rfl⟩ sturdyValue
  table entries filled := by
    constructor
    · exact .table _ _ (fun entry membership => (filled.sturdy entry membership).1.wellFormed)
        (fun entry membership => (filled.sturdy entry membership).2.wellFormed)
        (fun entry membership => (filled.keys entry membership).1)
        (fun entry membership => (filled.keys entry membership).2) filled.distinct
    · intro metapairs border inner inside
      cases inside with
      | self => exact borders entries
      | key membership inside =>
          exact (filled.sturdy _ membership).1.borders _ _ _ inside
      | value membership inside =>
          exact (filled.sturdy _ membership).2.borders _ _ _ inside

/-! ## What the encoder takes -/

def tooDeep : Failure := .luaError "serialize can't pack too depth table"

/-- The encoder goes on if what it encodes fits, and else raises its one error. -/
structure Judges {Result : Type} (x : Except Failure Result) (fits : Prop) : Prop where
  takes : fits → ∃ result, x = .ok result
  refuses : ¬fits → x = .error tooDeep

namespace Judges

variable {First Second : Type} {x : Except Failure First} {fits more : Prop}

theorem ok {value : First} : Judges (.ok value) True :=
  ⟨fun _ => ⟨value, rfl⟩, fun no => absurd trivial no⟩

theorem bind {f : First → Except Failure Second} (first : Judges x fits)
    (rest : ∀ value, Judges (f value) more) : Judges (x >>= f) (fits ∧ more) := by
  by_cases here : fits
  · obtain ⟨value, rfl⟩ := first.takes here
    refine ⟨fun both => (rest value).takes both.2, fun not => (rest value).refuses fun there => ?_⟩
    exact not ⟨here, there⟩
  · rw [first.refuses here]
    exact ⟨fun both => absurd both.1 here, fun _ => rfl⟩

theorem map {f : First → Second} (first : Judges x fits) :
    Judges (x >>= fun value => pure (f value)) fits := by
  by_cases here : fits
  · obtain ⟨value, rfl⟩ := first.takes here
    exact ⟨fun _ => ⟨f value, rfl⟩, fun no => absurd here no⟩
  · rw [first.refuses here]
    exact ⟨fun yes => absurd yes here, fun _ => rfl⟩

theorem congr (judges : Judges x fits) (same : fits ↔ more) : Judges x more :=
  ⟨fun yes => judges.takes (same.mpr yes), fun no => judges.refuses (mt same.mp no)⟩

end Judges

section Encoding

variable {one : LuaValue → Except Failure (List Bytes)} {fits : LuaValue → Prop}

theorem packArray_judges {entries : List Entry} (count : Nat) (i : Int)
    (each : ∀ j, Judges (one (rawgeti entries j)) (fits (rawgeti entries j))) :
    Judges (packArray one entries count i)
      (∀ j, i ≤ j → j < i + count → fits (rawgeti entries j)) := by
  induction count generalizing i with
  | zero => exact Judges.ok.congr (iff_of_true trivial fun j lower upper => by omega)
  | succ count inductionHypothesis =>
      refine ((each i).bind fun element => (inductionHypothesis (i + 1)).map).congr ?_
      constructor
      · rintro ⟨here, later⟩ j lower upper
        rcases eq_or_lt_of_le lower with rfl | behind
        · exact here
        · exact later j (by omega) (by omega)
      · intro all
        exact ⟨all i (le_refl i) (by omega), fun j lower upper => all j (by omega) (by omega)⟩

theorem packPairs_judges {pairs : List Entry}
    (each : ∀ pair ∈ pairs, Judges (one pair.1) (fits pair.1) ∧ Judges (one pair.2) (fits pair.2)) :
    Judges (packPairs one pairs) (∀ pair ∈ pairs, fits pair.1 ∧ fits pair.2) := by
  induction pairs with
  | nil =>
      exact Judges.ok.congr (iff_of_true trivial fun pair membership =>
        absurd membership List.not_mem_nil)
  | cons pair rest inductionHypothesis =>
      obtain ⟨⟨key, value⟩, later⟩ := List.forall_mem_cons.mp each
      refine (key.bind fun _ => value.bind fun _ => (inductionHypothesis later).map).congr ?_
      rw [List.forall_mem_cons, and_assoc]

end Encoding

theorem positive_of_within {value : LuaValue} {left : Nat} (within : value.Within left) :
    0 < left := by
  cases left with
  | zero => exact absurd within id
  | succ left => exact Nat.succ_pos left

theorem isNil_eq {value : LuaValue} (isNil : value.isNil = true) : value = .nil := by
  cases value <;> first | rfl | cases isNil

/-- The array part and the hash part are all entries, and a table with an array
part has an entry. -/
theorem parts_within {left border : Nat} {entries : List Entry} (isBorder : IsBorder border entries)
    (distinct : entries.Pairwise fun first second => rawEqual first.1 second.1 = false) :
    ((∀ j : Int, 1 ≤ j → j < 1 + (int32Of border).toNat → (rawgeti entries j).Within left) ∧
        ∀ pair ∈ entries.filter (fun entry => !inArray (int32Of border) entry.1),
          pair.1.Within left ∧ pair.2.Within left) ↔
      ∀ entry ∈ entries, entry.1.Within left ∧ entry.2.Within left := by
  constructor
  · rintro ⟨array, hash⟩ ⟨key, value⟩ membership
    by_cases inside : inArray (int32Of border) key = true
    · cases key with
      | integer index =>
          simp only [inArray, Bool.and_eq_true, decide_eq_true_eq] at inside
          have within := array index.value (by omega) (by omega)
          rw [rawgeti_eq distinct membership] at within
          refine ⟨?_, within⟩
          cases left with
          | zero => exact absurd within id
          | succ left => exact trivial
      | _ => exact absurd inside Bool.false_ne_true
    · refine hash (key, value) (List.mem_filter.mpr ⟨membership, ?_⟩)
      rw [eq_false_of_ne_true inside]
      rfl
  · intro all
    refine ⟨fun j lower upper => ?_, fun pair membership => all pair (List.mem_filter.mp membership).1⟩
    cases absent : (rawgeti entries j).isNil with
    | false =>
        obtain ⟨index, -, membership⟩ := rawgeti_mem absent
        exact (all _ membership).2
    | true =>
        have notZero : border ≠ 0 := by
          rintro rfl
          have zero : int32Of ((0 : Nat) : Int) = 0 := rfl
          rw [zero] at upper
          omega
        obtain ⟨index, -, membership⟩ := rawgeti_mem (isBorder.resolve_left notZero)
        have positive := positive_of_within (all _ membership).1
        rw [isNil_eq absent]
        cases left with
        | zero => exact absurd positive (lt_irrefl 0)
        | succ left => exact trivial

theorem Sturdy.entry {border : Nat} {entries : List Entry}
    (sturdy : Sturdy (.table none border entries)) {entry : Entry} (membership : entry ∈ entries) :
    Sturdy entry.1 ∧ Sturdy entry.2 := by
  obtain ⟨wellFormed, borders⟩ := sturdy
  cases wellFormed with
  | table border entries keys values isKey notNil distinct =>
      exact ⟨⟨keys entry membership, fun _ _ _ inside => borders _ _ _ (.key membership inside)⟩,
        ⟨values entry membership, fun _ _ _ inside => borders _ _ _ (.value membership inside)⟩⟩

theorem packOne_judges {value : LuaValue} (sturdy : Sturdy value) (left : Nat) :
    Judges (packOne left value) (value.Within left) := by
  induction left generalizing value with
  | zero => exact ⟨fun within => absurd within id, fun _ => rfl⟩
  | succ left inductionHypothesis =>
      cases sturdy.wellFormed with
      | table border entries keys values isKey notNil distinct =>
          have element : ∀ j, Judges (packOne left (rawgeti entries j))
              ((rawgeti entries j).Within left) := by
            intro j
            cases absent : (rawgeti entries j).isNil with
            | true =>
                rw [isNil_eq absent]
                exact inductionHypothesis (.flat .nil nofun)
            | false =>
                obtain ⟨index, -, membership⟩ := rawgeti_mem absent
                exact inductionHypothesis (sturdy.entry membership).2
          have pair : ∀ entry ∈ entries.filter (fun entry => !inArray (int32Of border) entry.1),
              Judges (packOne left entry.1) (entry.1.Within left) ∧
                Judges (packOne left entry.2) (entry.2.Within left) := fun entry membership =>
            have parts := sturdy.entry (List.mem_filter.mp membership).1
            ⟨inductionHypothesis parts.1, inductionHypothesis parts.2⟩
          have array := packArray_judges (int32Of border).toNat 1 element
          have hash := packPairs_judges pair
          have isBorder := sturdy.borders _ _ _ (.self _)
          exact ((array.map.bind fun _ => hash.map).congr (parts_within isBorder distinct))
      | _ => exact Judges.ok

theorem packFrom_judges {values : List LuaValue} (sturdy : ∀ value ∈ values, Sturdy value) :
    Judges (packFrom values) (∀ value ∈ values, value.Within (maxDepth + 1)) := by
  induction values with
  | nil =>
      exact Judges.ok.congr (iff_of_true trivial fun value membership =>
        absurd membership List.not_mem_nil)
  | cons value rest inductionHypothesis =>
      obtain ⟨here, later⟩ := List.forall_mem_cons.mp sturdy
      refine ((packOne_judges here (maxDepth + 1)).bind fun _ =>
        (inductionHypothesis later).map).congr ?_
      rw [List.forall_mem_cons]

/-- Behind `pack_from` nothing complains about the depth. -/
theorem pack_tooDeep_iff {values : List LuaValue} (sturdy : ∀ value ∈ values, Sturdy value) :
    pack values = .error tooDeep ↔ ¬∀ value ∈ values, value.Within (maxDepth + 1) := by
  have judges := packFrom_judges sturdy
  constructor
  · intro failed within
    obtain ⟨pushes, packed⟩ := judges.takes within
    unfold pack at failed
    rw [packed, ok_bind] at failed
    split at failed
    · cases failed
    · unfold seri at failed
      split at failed
      · have other : "memory allocation error: block too big" ≠
            "serialize can't pack too depth table" := by decide
        exact other (Failure.luaError.inj (Except.error.inj failed))
      · split at failed <;> cases failed
  · intro deep
    unfold pack
    rw [judges.refuses deep]
    rfl

/-- What is unpacked can be packed again, as far as the depth is concerned, if what is kept of
the tables in the bytes fits into `MAX_DEPTH` levels. -/
theorem packs_of_within {rawlen : List Entry → Nat}
    (borders : ∀ entries, IsBorder (rawlen entries) entries) {bytes : Bytes}
    (fits : ∀ ws, written bytes = .ok ws → ∀ w ∈ ws, w.Within (maxDepth + 1))
    {values : List LuaValue} (returned : unpack rawlen (.string bytes) = .ok values) :
    pack values ≠ .error tooDeep := by
  have bounds := int32Of_bounds bytes.length
  rcases unpack_tiles (sturdy_closed borders bytes bounds.2) with
    ⟨message, failed⟩ | ⟨again, -, -, plain, -, sturdy⟩
  · rw [returned] at failed
    cases failed
  · rw [returned] at plain
    cases plain
    intro refused
    refine (pack_tooDeep_iff sturdy).mp refused fun value among => ?_
    have spells := @written_spells rawlen bytes
    rw [returned] at spells
    cases read : written bytes with
    | error failure =>
        rw [read] at spells
        cases spells
    | ok ws =>
        rw [read] at spells
        cases spells
        rcases List.mem_map.mp among with ⟨w, written, rfl⟩
        exact (value_within w _).mpr (fits ws read w written)

/-! ## The calls of the decoder -/

/-- `unpack` of a string with room for `depth` calls of `unpack_one` inside each other. -/
def unpackNested (rawlen : List Entry → Nat) (depth : Nat) (bytes : Bytes) :
    Except Failure (List LuaValue) :=
  let len := int32Of bytes.length
  if len = 0 then .ok []
  else unpackLoop rawlen depth (len.toNat + 1) (ReadBlock.init bytes len)

section Calls

variable {rawlen : List Entry → Nat} {bytes : Bytes} {depth : Nat}

theorem int32Of_le (n : Nat) : (int32Of n).toNat ≤ n := by
  simp only [int32Of, Int.bmod]
  split <;> omega

theorem init_len (bytes : Bytes) (len : Int) : (ReadBlock.init bytes len).len = len := rfl

theorem init_ended {len : Int} (nothing : len ≤ 0) : (ReadBlock.init bytes len).read 1 = none :=
  if_pos (lt_of_le_of_lt nothing Int.zero_lt_one)

/-- A block in front of the bytes that `unpack` looks at. -/
theorem init_stands (positive : 0 ≤ int32Of bytes.length) :
    Stands (ReadBlock.init bytes (int32Of bytes.length)) (lookedAt bytes) where
  ptr := le_rfl
  len := by
    rw [init_len, lookedAt, List.length_take, Nat.min_eq_left (int32Of_le _),
      Int.toNat_of_nonneg positive]
  held := List.take_prefix _ _

theorem lookedAt_length_lt (bytes : Bytes) :
    (lookedAt bytes).length < (int32Of bytes.length).toNat + 1 :=
  Nat.lt_succ_of_le (List.length_take_le _ _)

theorem unpack_ended (rawlen : List Entry → Nat) (bytes : Bytes) :
    unpack rawlen (.string bytes) ≠ .error .outOfFuel := by
  intro endless
  rcases unpack_tiles (sliced_closed rawlen bytes (int32Of bytes.length)) with
    ⟨message, failed⟩ | ⟨values, -, -, plain, -⟩
  · rw [endless] at failed
    cases failed
  · rw [endless] at plain
    cases plain

theorem map_ended {ws : Except Failure (List Written)} :
    ws.map (List.map (Written.value rawlen)) ≠ .error .outOfFuel ↔ ws ≠ .error .outOfFuel := by
  cases ws with
  | error failure => rw [Except.map, ne_eq, ne_eq, Except.error.injEq, Except.error.injEq]
  | ok values => refine iff_of_true (fun absurdity => ?_) fun absurdity => ?_ <;> cases absurdity

theorem unpackLoop_ended {rb : ReadBlock} (ended : rb.read 1 = none) (depth fuel : Nat) :
    unpackLoop rawlen depth (fuel + 1) rb = .ok [] := by
  rw [unpackLoop, ended]

/-- The decoder gets along with so many calls inside each other if and only if no more tables
are open at once. -/
theorem unpackNested_iff (rawlen : List Entry → Nat) (depth : Nat) (bytes : Bytes) :
    unpackNested rawlen depth bytes = unpack rawlen (.string bytes) ↔ AtMostOpen depth bytes := by
  rcases le_or_gt (int32Of bytes.length) 0 with nothing | positive
  · have none : lookedAt bytes = [] := by
      rw [lookedAt, Int.toNat_eq_zero.mpr nothing, List.take_zero]
    refine iff_of_true ?_ ?_
    · unfold unpackNested unpack unpackBuffer
      dsimp only
      rw [unpackLoop_ended (init_ended nothing), unpackLoop_ended (init_ended nothing)]
    · rw [AtMostOpen, none]
      exact atMostOpen_stuck rfl (Nat.zero_le _)
  · have stands := init_stands positive.le
    have enough := lookedAt_length_lt bytes
    have ended := unpack_ended rawlen bytes
    unfold unpack unpackBuffer at ended
    unfold unpackNested unpack unpackBuffer
    dsimp only at ended ⊢
    rw [if_neg positive.ne', writtenLoop_spells] at ended
    rw [if_neg positive.ne', if_neg positive.ne', writtenLoop_spells, writtenLoop_spells,
      AtMostOpen, ← writtenLoop_agrees depth enough stands]
    constructor
    · intro same
      rw [← @map_ended rawlen, same]
      exact ended
    · intro short
      rw [map_ended] at ended
      rcases Nat.le_total depth ((int32Of bytes.length).toNat + 1) with less | more
      · rw [writtenLoop_same less short]
      · rw [writtenLoop_same more ended]

end Calls

/-! ## What few calls can read -/

section Shallow

variable {reader : ReadBlock → Except Failure (Written × ReadBlock)} {left : Nat}

theorem mem_of_kept {assignments : List (Written × Written)} {assignment : Written × Written}
    (keeps : assignment ∈ Written.kept assignments) : assignment ∈ assignments := by
  induction assignments with
  | nil => exact keeps
  | cons first rest inductionHypothesis =>
      rw [Written.kept] at keeps
      split_ifs at keeps
      · exact List.mem_cons_of_mem _ (inductionHypothesis keeps)
      · rcases List.mem_cons.mp keeps with rfl | later
        · exact List.mem_cons_self
        · exact List.mem_cons_of_mem _ (inductionHypothesis later)

theorem getBuffer_within {rb next : ReadBlock} {len : Int} {value : LuaValue}
    (made : getBuffer rb len = .ok (value, next)) : value.Within (left + 1) := by
  unfold getBuffer at made
  split at made
  · cases made
  · split_ifs at made
    cases made
    exact trivial

theorem pushValue_within {type cookie : Nat} (flat : type ≠ typeTable) {rb next : ReadBlock}
    {value : LuaValue} (made : pushValue (fun _ => 0) (fun _ => .error .outOfFuel) rb type cookie =
      .ok (value, next)) : value.Within (left + 1) := by
  unfold pushValue at made
  split_ifs at made
  · cases made
    exact trivial
  · cases made
    exact trivial
  · rcases bind_eq_ok.mp made with ⟨bits, -, same⟩
    cases same
    exact trivial
  · rcases bind_eq_ok.mp made with ⟨integer, -, same⟩
    cases same
    exact trivial
  · rcases bind_eq_ok.mp made with ⟨address, -, same⟩
    cases same
    exact trivial
  · exact getBuffer_within made
  · rcases bind_eq_ok.mp made with ⟨length, -, got⟩
    exact getBuffer_within got
  · cases made
  · rcases bind_eq_ok.mp made with ⟨length, -, got⟩
    exact getBuffer_within got
  · cases made

/-- What the reader gets fits into `left` levels. -/
def Shallow (left : Nat) (reader : ReadBlock → Except Failure (Written × ReadBlock)) : Prop :=
  ∀ rb w next, reader rb = .ok (w, next) → w.Within left

theorem writtenArray_within (shallow : Shallow left reader) {count : Nat} {i : Int}
    {rb next : ReadBlock} {assignments : List (Written × Written)}
    (made : writtenArray reader count i rb = .ok (assignments, next)) :
    ∀ assignment ∈ assignments, assignment.1.Within left ∧ assignment.2.Within left := by
  induction count generalizing i rb assignments with
  | zero =>
      cases made
      exact List.forall_mem_nil _
  | succ count inductionHypothesis =>
      rcases bind_eq_ok.mp made with ⟨element, read, made⟩
      rcases bind_eq_ok.mp made with ⟨others, array, same⟩
      cases same
      have within := shallow _ _ _ read
      refine List.forall_mem_cons.mpr ⟨⟨?_, within⟩, inductionHypothesis array⟩
      cases left with
      | zero => exact absurd within id
      | succ left => exact trivial

theorem writtenHash_within (shallow : Shallow left reader) {fuel : Nat} {rb next : ReadBlock}
    {assignments : List (Written × Written)}
    (made : writtenHash reader fuel rb = .ok (assignments, next)) :
    ∀ assignment ∈ assignments, assignment.1.Within left ∧ assignment.2.Within left := by
  induction fuel generalizing rb assignments with
  | zero => cases made
  | succ fuel inductionHypothesis =>
      rcases bind_eq_ok.mp made with ⟨key, readKey, made⟩
      dsimp only at made
      split_ifs at made
      · cases made
        exact List.forall_mem_nil _
      · rcases bind_eq_ok.mp made with ⟨value, readValue, made⟩
        cases slot : key.1.slot with
        | error message =>
            rw [slot] at made
            cases made
        | ok stored =>
            rw [slot] at made
            rcases bind_eq_ok.mp made with ⟨others, hash, same⟩
            cases same
            exact List.forall_mem_cons.mpr
              ⟨⟨shallow _ _ _ readKey, shallow _ _ _ readValue⟩, inductionHypothesis hash⟩

theorem writtenValue_within (shallow : Shallow left reader) {rb next : ReadBlock}
    {type cookie : Nat} {w : Written}
    (made : writtenValue reader rb type cookie = .ok (w, next)) : w.Within (left + 1) := by
  unfold writtenValue at made
  split_ifs at made with table
  · rcases bind_eq_ok.mp made with ⟨size, -, made⟩
    rcases bind_eq_ok.mp made with ⟨array, readArray, made⟩
    rcases bind_eq_ok.mp made with ⟨hash, readHash, same⟩
    cases same
    intro assignment keeps
    rcases List.mem_append.mp (mem_of_kept keeps) with among | among
    · exact writtenArray_within shallow readArray assignment among
    · exact writtenHash_within shallow readHash assignment among
  · rcases bind_eq_ok.mp made with ⟨value, flat, same⟩
    cases same
    exact pushValue_within table flat

theorem writtenOne_within (fuel : Nat) : Shallow fuel (writtenOne fuel) := by
  induction fuel with
  | zero =>
      intro rb w next made
      cases made
  | succ fuel inductionHypothesis =>
      intro rb w next made
      rcases bind_eq_ok.mp made with ⟨header, -, made⟩
      exact writtenValue_within inductionHypothesis made

theorem writtenLoop_within {depth fuel : Nat} {rb : ReadBlock} {ws : List Written}
    (made : writtenLoop depth fuel rb = .ok ws) : ∀ w ∈ ws, w.Within (depth + 1) := by
  induction fuel generalizing rb ws with
  | zero => cases made
  | succ fuel inductionHypothesis =>
      rw [writtenLoop] at made
      cases found : rb.read 1 with
      | none =>
          rw [found] at made
          cases made
          exact List.forall_mem_nil _
      | some header =>
          rw [found] at made
          rcases bind_eq_ok.mp made with ⟨value, read, made⟩
          rcases bind_eq_ok.mp made with ⟨others, rest, same⟩
          cases same
          exact List.forall_mem_cons.mpr
            ⟨writtenValue_within (writtenOne_within depth) read, inductionHypothesis rest⟩

end Shallow

/-- Where no more tables are open nothing of what is written is nested deeper. -/
theorem written_within {bytes : Bytes} {depth : Nat} (atMost : AtMostOpen depth bytes)
    {ws : List Written} (read : written bytes = .ok ws) : ∀ w ∈ ws, w.Within (depth + 1) := by
  unfold written at read
  rcases le_or_gt (int32Of bytes.length) 0 with nothing | positive
  · have ended := @init_ended bytes _ nothing
    dsimp only at read
    rw [writtenLoop, ended, ite_self] at read
    cases read
    exact List.forall_mem_nil _
  · have short := (writtenLoop_agrees depth (lookedAt_length_lt bytes)
      (init_stands positive.le)).mpr atMost
    dsimp only at read
    rw [if_neg positive.ne'] at read
    rcases Nat.le_total depth ((int32Of bytes.length).toNat + 1) with less | more
    · rw [writtenLoop_same less short] at read
      exact writtenLoop_within read
    · rw [← writtenLoop_same more (by rw [read]; intro absurdity; cases absurdity)] at read
      exact writtenLoop_within read

/-- The decoder gets along with `MAX_DEPTH` calls inside each other, and the encoder takes what
it returns, if and only if at most `MAX_DEPTH` tables are open at any place of the bytes. -/
theorem nesting_bounded_iff {rawlen : List Entry → Nat}
    (borders : ∀ entries, IsBorder (rawlen entries) entries) (bytes : Bytes) :
    ((∀ values, unpack rawlen (.string bytes) = .ok values → pack values ≠ .error tooDeep) ∧
        unpackNested rawlen maxDepth bytes = unpack rawlen (.string bytes)) ↔
      AtMostOpen maxDepth bytes := by
  rw [unpackNested_iff]
  refine and_iff_right_of_imp fun atMost values returned => ?_
  exact packs_of_within borders (fun ws => written_within atMost) returned

def lengthOrZero (entries : List Entry) : Nat :=
  if (rawgeti entries entries.length).isNil then 0 else entries.length

theorem lengthOrZero_isBorder (entries : List Entry) : IsBorder (lengthOrZero entries) entries := by
  unfold lengthOrZero
  split_ifs with absent
  · exact Or.inl rfl
  · exact Or.inr (eq_false_of_ne_true absent)

/-- A table as the key of a nil value, in a table. -/
theorem nesting_bounded_dropped :
    ((∀ values, unpack lengthOrZero (.string [6, 14, 2, 0, 0, 0]) = .ok values →
          pack values ≠ .error tooDeep) ∧
        unpackNested lengthOrZero maxDepth [6, 14, 2, 0, 0, 0] =
          unpack lengthOrZero (.string [6, 14, 2, 0, 0, 0])) ∧
      AtMostOpen maxDepth [6, 14, 2, 0, 0, 0] := by
  have atMost : AtMostOpen maxDepth [6, 14, 2, 0, 0, 0] := by
    have looked : lookedAt [6, 14, 2, 0, 0, 0] = [6, 14, 2, 0, 0, 0] := by decide
    rw [AtMostOpen, looked, Scan.AtMostOpen]
    iterate 6
      refine (@throughout_some _ Scan.turn _ _ _ rfl).mpr ⟨?_, ?_⟩
      · decide
    exact (throughout_none rfl).mpr (by decide)
  exact ⟨(nesting_bounded_iff lengthOrZero_isBorder _).mpr atMost, atMost⟩

/-- Tables in tables, one more than the encoder takes. -/
def deepBytes : Bytes := List.replicate 33 14 ++ [6] ++ List.replicate 34 0

def refused (values : List LuaValue) : Bool :=
  match pack values with
  | .error failure => failure = tooDeep
  | .ok _ => false

theorem deep_nesting_accepted : ∃ values,
    unpack lengthOrZero (.string deepBytes) = .ok values ∧ pack values = .error tooDeep := by
  have run : (unpack lengthOrZero (.string deepBytes)).map refused = .ok true := by decide +kernel
  cases returned : unpack lengthOrZero (.string deepBytes) with
  | error failure =>
      rw [returned] at run
      cases run
  | ok values =>
      rw [returned] at run
      have isRefused : refused values = true := Except.ok.inj run
      unfold refused at isRefused
      cases packed : pack values with
      | error failure =>
          rw [packed] at isRefused
          obtain rfl : failure = tooDeep := of_decide_eq_true isRefused
          exact ⟨values, rfl, packed⟩
      | ok made =>
          rw [packed] at isRefused
          cases isRefused

end CrossOver.Lua
