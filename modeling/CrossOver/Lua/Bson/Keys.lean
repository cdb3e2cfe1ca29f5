import CrossOver.Lib.Behaves
import CrossOver.Lua.Bson.RoundTrip
import Mathlib.Data.List.Pairwise

/-!
# Zero bytes in keys

A key is written with all its bytes and read up to the first zero byte, so what is
behind that byte is taken for elements of the document.  The decoder never returns
such a key: a table that holds one at any depth does not come back.

The other two reasons for a table not to come back are sequences with more than one
element and documents too large for the buffer.
-/

namespace CrossOver.Lua.Bson

open CrossOver.Lib

/-- A property of every table in a value, from its border and its entries. -/
inductive Throughout (holds : Nat → List Entry → Prop) : LuaValue → Prop where
  | flat {value : LuaValue} :
      (∀ metapairs border entries, value ≠ .table metapairs border entries) →
      Throughout holds value
  | table {metapairs : Option (List Entry)} {border : Nat} {entries : List Entry} :
      holds border entries → (∀ entry ∈ entries, Throughout holds entry.2) →
      Throughout holds (.table metapairs border entries)

theorem throughout_table {holds : Nat → List Entry → Prop} {metapairs : Option (List Entry)}
    {border : Nat} {entries : List Entry} :
    Throughout holds (.table metapairs border entries) ↔
      holds border entries ∧ ∀ entry ∈ entries, Throughout holds entry.2 := by
  constructor
  · intro throughout
    cases throughout with
    | flat other => exact absurd rfl (other _ _ _)
    | table here values => exact ⟨here, values⟩
  · exact fun parts => .table parts.1 parts.2

def ZeroFreeKey (key : LuaValue) : Prop := ∀ str, key = .string str → 0 ∉ str

def ZeroFreeKeys (_border : Nat) (entries : List Entry) : Prop :=
  ∀ entry ∈ entries, ZeroFreeKey entry.1

def AtMostOne (border : Nat) (_entries : List Entry) : Prop := border ≤ 1

section Reading

/-- Whatever the decoder returns has the property. -/
def Yields {Value : Type} (holds : Value → Prop) (x : Decoder Value) : Prop :=
  ∀ r, Behaves (fun _ => True) x (fun value _ => holds value) r

section Rules

variable {First Second : Type} {holds : First → Prop} {result : Second → Prop}
  {x : Decoder First} {f : First → Decoder Second}

theorem Yields.seq (first : Yields holds x)
    (rest : ∀ value, holds value → Yields result (f value)) :
    Yields result (x >>= f) := fun r => (first r).seq fun value t held => rest value held t

theorem yields_any (x : Decoder First) : Yields (fun _ => True) x := by
  intro r
  unfold Behaves
  split <;> trivial

theorem Yields.behind (rest : ∀ value, Yields result (f value)) : Yields result (x >>= f) :=
  (yields_any x).seq fun value _ => rest value

theorem Yields.pure {value : First} (held : holds value) :
    Yields holds (pure value : Decoder First) := fun _ => held

theorem Yields.throw {failure : Failure} : Yields holds (throw failure : Decoder First) :=
  fun _ => trivial

theorem Yields.ite {condition : Prop} [Decidable condition] {y : Decoder First}
    (positive : Yields holds x) (negative : Yields holds y) :
    Yields holds (if condition then x else y) := by
  split
  · exact positive
  · exact negative

theorem Yields.lift {x : Except Failure First} (held : ∀ value, x = .ok value → holds value) :
    Yields holds (liftM x : Decoder First) := by
  intro r
  cases x with
  | error failure => trivial
  | ok value => exact held value rfl

end Rules

theorem scanCstring_noZero (bytes : Bytes) (size : Int) {str : Bytes}
    (scanned : scanCstring bytes size = .ok str) : 0 ∉ str := by
  induction bytes generalizing size str with
  | nil =>
      simp only [scanCstring] at scanned
      split_ifs at scanned
  | cons byte rest inductionHypothesis =>
      simp only [scanCstring] at scanned
      split_ifs at scanned with ends zero
      · cases scanned
        exact List.not_mem_nil
      · obtain ⟨tail, found, whole⟩ := bind_eq_ok.mp scanned
        cases whole
        rw [List.mem_cons, not_or]
        exact ⟨Ne.symm zero, inductionHypothesis _ found⟩

theorem readCstring_yields : Yields (fun str => 0 ∉ str) readCstring := by
  refine Yields.behind fun r => Yields.ite .throw ?_
  refine (Yields.lift fun str scanned => scanCstring_noZero _ _ scanned).seq ?_
  exact fun str noZero => Yields.behind fun _ => .pure noZero

section Values

variable (holds : Nat → List Entry → Prop)

theorem throughout_string (str : Bytes) : Throughout holds (.string str) :=
  .flat fun _ _ _ same => by cases same

theorem makeObject_yields (type : UInt8) (ptr len : Int) :
    Yields (Throughout holds) (makeObject type ptr len) :=
  .behind fun _ => .pure (throughout_string holds _)

theorem readRaw_yields (type : UInt8) (behind whole : Int) :
    Yields (Throughout holds) (readRaw type behind whole) :=
  .behind fun _ => .behind fun _ => .behind fun _ => .behind fun _ => .behind fun _ =>
    makeObject_yields holds type _ _

/-- Only an embedded document gives a table. -/
theorem readValue_yields {nested : Bool → Decoder LuaValue}
    (inner : ∀ array, Yields (Throughout holds) (nested array)) (bt : UInt8) :
    Yields (Throughout holds) (readValue nested bt) := by
  have text := throughout_string holds
  unfold readValue
  refine .ite (.behind fun bits => .pure (.flat fun _ _ _ same => by cases same)) ?_
  refine .ite (.behind fun value => .pure (.flat fun _ _ _ same => by cases same)) ?_
  refine .ite (.behind fun sz => .ite .throw (.behind fun _ => .behind fun _ => .pure (text _))) ?_
  refine .ite (inner false) (.ite (inner true) ?_)
  refine .ite (.behind fun sz => .behind fun _ => .behind fun _ => .behind fun _ =>
    .pure (text _)) ?_
  refine .ite (.behind fun _ => makeObject_yields holds _ _ _) ?_
  refine .ite (.behind fun date => .pure (text _)) (.ite (.pure (text _)) ?_)
  refine .ite (.behind fun _ => .behind fun _ => .pure (text _)) ?_
  refine .ite (.behind fun value => .pure (.flat fun _ _ _ same => by cases same)) ?_
  refine .ite (.behind fun inc => .behind fun ts => .pure (text _)) ?_
  refine .ite (.behind fun value => .pure (.flat fun _ _ _ same => by cases same)) ?_
  exact .ite (readRaw_yields holds _ _ _)
    (.ite (readRaw_yields holds _ _ _) (.ite (readRaw_yields holds _ _ _) .throw))

end Values

/-- The keys and the values of entries that the decoder has stored. -/
def Clean (entry : Entry) : Prop := ZeroFreeKey entry.1 ∧ Throughout ZeroFreeKeys entry.2

theorem elementKey_zeroFree (array : Bool) {name : Bytes} (noZero : 0 ∉ name) :
    ZeroFreeKey (elementKey array name) := by
  cases array with
  | false =>
      intro str same
      cases same
      exact noZero
  | true =>
      intro str same
      cases same

theorem readElements_yields {nested : Bool → Decoder LuaValue} (array : Bool)
    (inner : ∀ array, Yields (Throughout ZeroFreeKeys) (nested array)) (fuel : Nat)
    (entries : List Entry) (clean : ∀ entry ∈ entries, Clean entry) :
    Yields (fun stored => ∀ entry ∈ stored, Clean entry)
      (readElements nested array fuel entries) := by
  induction fuel generalizing entries with
  | zero => exact .throw
  | succ fuel inductionHypothesis =>
      have element : Yields Clean (readElement nested array) :=
        .behind fun bt => readCstring_yields.seq fun name noZero =>
          (readValue_yields _ inner bt).seq fun value held =>
            .pure ⟨elementKey_zeroFree array noZero, held⟩
      refine .behind fun r => .ite (.pure clean) (element.seq fun made held => ?_)
      refine inductionHypothesis _ fun entry membership => ?_
      rcases mem_setSlot.mp membership with ⟨before, -⟩ | ⟨-, rfl⟩
      · exact clean entry before
      · exact held

theorem unpackDict_yields (rt : Runtime) (fuel : Nat) (array : Bool) :
    Yields (Throughout ZeroFreeKeys) (unpackDict rt fuel array) := by
  induction fuel generalizing array with
  | zero => exact .throw
  | succ fuel inductionHypothesis =>
      refine .behind fun sz => .behind fun inner => .behind fun ptr => .behind fun last => ?_
      refine .ite .throw (.behind fun br => ?_)
      have stored : Yields (fun made : List Entry × Reader => ∀ entry ∈ made.1, Clean entry)
          (liftM (readElements (unpackDict rt fuel) array fuel []
            { br with ptr := ptr, size := inner }) : Decoder (List Entry × Reader)) := by
        refine .lift fun made read => ?_
        exact (readElements_yields array inductionHypothesis fuel []
          (fun entry membership => absurd membership List.not_mem_nil) _).returned read
      refine stored.seq fun made clean => .pure ?_
      exact .table (fun entry membership => (clean entry membership).1)
        fun entry membership => (clean entry membership).2

/-- No key that `bson.decode` returns has a zero byte, at any depth. -/
theorem ldecode_zeroFree (rt : Runtime) {fuel : Nat} {bytes : Bytes} {decoded : LuaValue}
    (success : ldecode rt fuel (some bytes) = .ok (some decoded)) :
    Throughout ZeroFreeKeys decoded := by
  simp only [ldecode] at success
  split_ifs at success
  obtain ⟨read, ran, made⟩ := bind_eq_ok.mp success
  cases made
  exact (unpackDict_yields rt fuel false _).returned ran

end Reading

section Returning

/-- A table with keys free of zero bytes, in which no table lies too deep, is encodable. -/
theorem Keyed.encodable {value : LuaValue} (keyed : Keyed value)
    (zeroFree : Throughout ZeroFreeKeys value) {left : Nat} {key : Bytes}
    (whole : elementCut left key value = none) : Encodable True left value := by
  induction keyed generalizing left key with
  | scalar scalar => exact .scalar scalar
  | table keys distinct values inductionHypothesis =>
      obtain ⟨names, inside⟩ := throughout_table.mp zeroFree
      cases left with
      | zero => cases whole
      | succ left =>
          rw [elementCut_table, Option.map_eq_none_iff, documentCut, elementsCut_none] at whole
          refine .table (fun entry membership => ?_) distinct fun entry membership =>
            inductionHypothesis entry membership (inside entry membership) (whole entry membership)
          obtain ⟨str, named⟩ := keys entry membership
          exact ⟨str, named, names entry membership str named⟩
  | array kind keys values inductionHypothesis =>
      obtain ⟨-, inside⟩ := throughout_table.mp zeroFree
      cases left with
      | zero => cases whole
      | succ left =>
          rw [elementCut_table, Option.map_eq_none_iff, documentCut, elementsCut_none] at whole
          exact .array trivial kind keys fun entry membership =>
            inductionHypothesis entry membership (inside entry membership) (whole entry membership)

theorem zeroFree_table {border : Nat} {entries : List Entry} {value' : LuaValue}
    (same : Same (.table none border entries) value') (zeroFree : Throughout ZeroFreeKeys value')
    (values : ∀ entry ∈ entries, ∀ {value' : LuaValue}, Same entry.2 value' →
      Throughout ZeroFreeKeys value' → Throughout ZeroFreeKeys entry.2) :
    Throughout ZeroFreeKeys (.table none border entries) := by
  obtain ⟨border', entries', rfl⟩ : ∃ border' entries', value' = .table none border' entries' := by
    cases same
    exact ⟨_, _, rfl⟩
  obtain ⟨names, inside⟩ := throughout_table.mp zeroFree
  refine .table (fun entry membership str named => ?_) fun entry membership => ?_
  · obtain ⟨entry', found, keys, -⟩ := same.partner membership
    rw [named] at keys
    generalize other : entry'.1 = key' at keys
    cases keys
    exact names entry' found str other
  · obtain ⟨entry', found, -, both⟩ := same.partner membership
    exact values entry membership both (inside entry' found)

theorem Keyed.zeroFree {value value' : LuaValue} (keyed : Keyed value) (same : Same value value')
    (zeroFree : Throughout ZeroFreeKeys value') : Throughout ZeroFreeKeys value := by
  induction keyed generalizing value' with
  | scalar scalar =>
      refine .flat fun metapairs border entries isTable => ?_
      subst isTable
      cases scalar
  | table keys distinct values inductionHypothesis =>
      exact zeroFree_table same zeroFree inductionHypothesis
  | array kind keys values inductionHypothesis =>
      exact zeroFree_table same zeroFree inductionHypothesis

variable (rt : Runtime) {arrays : Prop} {left : Nat}

theorem entry_of_key {entries : List Entry}
    (distinct : entries.Pairwise (fun first second => LuaValue.rawEqual first.1 second.1 = false))
    {first second : Entry} (firstIn : first ∈ entries) (secondIn : second ∈ entries)
    (sameKey : LuaValue.rawEqual first.1 second.1 = true) : first = second := by
  by_contra different
  have symmetric : Std.Symm fun first second : Entry =>
      LuaValue.rawEqual first.1 second.1 = false :=
    ⟨fun first second apart => by rwa [rawEqual_comm]⟩
  rw [distinct.forall firstIn secondIn different] at sameKey
  cases sameKey

/-- The entries that come back for a sequence with one element. -/
theorem returned_single {border : Nat} {entries : List Entry}
    (keys : (entries.map Prod.fst).Perm (sequenceKeys border)) {entry : Entry}
    (membership : entry ∈ entries) (single : border ≤ 1)
    (notNil : (returned rt left entry.2).isNil = false) :
    entries = [entry] ∧
      storeElements (returned rt left) true entries [] = [(entry.1, returned rt left entry.2)] := by
  have count : entries.length = border := by simpa [sequenceKeys] using keys.length_eq
  obtain ⟨only, rfl⟩ : ∃ only, entries = [only] :=
    List.length_eq_one_iff.mp (by
      have some := List.length_pos_of_mem membership
      omega)
  rw [List.mem_singleton.mp membership] at notNil ⊢
  obtain ⟨i, bound, key⟩ := Encodable.array_keys keys only List.mem_cons_self
  obtain rfl : i = 0 := by omega
  refine ⟨rfl, ?_⟩
  have index : elementKey true (entryName only.1) = only.1 := by
    rw [key]
    rfl
  rw [storeElements, List.foldl_cons, List.foldl_nil, index,
    setSlot_of_new (fun old oldIn => absurd oldIn List.not_mem_nil) notNil]
  rfl

/-- A sequence comes back with all its elements only if it has at most one. -/
theorem Encodable.atMostOne {value : LuaValue} (encodable : Encodable True left value)
    (same : Same value (returned rt left value)) : Throughout AtMostOne value := by
  induction encodable with
  | scalar scalar =>
      refine .flat fun metapairs border entries isTable => ?_
      subst isTable
      cases scalar
  | table keys distinct values inductionHypothesis =>
      simp only [returned, holdsArray_zero, returned_table rt keys distinct values] at same
      refine .table (Nat.zero_le _) fun entry membership => inductionHypothesis entry membership ?_
      obtain ⟨entry', found, sameKey, sameValue⟩ := same.partner membership
      obtain ⟨other, otherIn, rfl⟩ := List.mem_map.mp found
      have itself : entry = other := by
        obtain ⟨str, named, -⟩ := keys entry membership
        refine entry_of_key distinct membership otherIn ?_
        rw [sameKey.rawEqual_left, named]
        simp [LuaValue.rawEqual]
      rw [itself] at sameValue ⊢
      exact sameValue
  | @array left border entries allowed kind keys values inductionHypothesis =>
      simp only [returned, holdsArray, kind] at same
      have count : entries.length = border := by simpa [sequenceKeys] using keys.length_eq
      have single : border ≤ 1 := by
        by_contra many
        have shorter := returned_array_shorter rt keys values (by omega)
        rw [← same.length_eq] at shorter
        omega
      refine .table single fun entry membership => inductionHypothesis entry membership ?_
      obtain ⟨-, stored⟩ := returned_single rt keys membership single
        (returned_notNil rt left entry.2 (values entry membership))
      obtain ⟨entry', found, -, sameValue⟩ := same.partner membership
      rw [stored, List.mem_singleton] at found
      rwa [found] at sameValue

theorem Encodable.comesBack {value : LuaValue} (encodable : Encodable arrays left value)
    (single : Throughout AtMostOne value) : Same value (returned rt left value) := by
  induction encodable with
  | scalar scalar =>
      rw [returned_scalar rt _ scalar]
      exact same_scalar scalar
  | table keys distinct values inductionHypothesis =>
      obtain ⟨-, inside⟩ := throughout_table.mp single
      exact same_returned_table rt keys distinct values fun entry membership =>
        inductionHypothesis entry membership (inside entry membership)
  | @array left border entries allowed kind keys values inductionHypothesis =>
      obtain ⟨short, inside⟩ := throughout_table.mp single
      simp only [returned, holdsArray, kind]
      have notZero : border ≠ 0 := by
        rintro rfl
        cases kind
      have count : entries.length = border := by simpa [sequenceKeys] using keys.length_eq
      obtain ⟨entry, membership⟩ : ∃ entry, entry ∈ entries :=
        List.exists_mem_of_length_pos (by omega)
      obtain ⟨alone, stored⟩ := returned_single rt keys membership short
        (returned_notNil rt left entry.2 (values entry membership))
      rw [stored]
      subst alone
      refine .table (List.Perm.refl _) (.cons ?_ ?_ .nil)
      · obtain ⟨i, -, key⟩ := Encodable.array_keys keys entry membership
        rw [key]
        exact .integer _
      · exact inductionHypothesis entry membership (inside entry membership)

end Returning

/-- The table is refused, or comes back with exactly its keys and their values. -/
def Unforgeable (rt : Runtime) (entries : List Entry) : Prop :=
  (∃ message, lencode rt (.table none 0 entries) = .error (.luaError message)) ∨
    ∃ bytes decoded, lencode rt (.table none 0 entries) = .ok bytes ∧
      (∀ fuel, bytes.length ≤ fuel → ldecode rt fuel (some bytes) = .ok (some decoded)) ∧
      Same (.table none 0 entries) decoded

/-- Either some table lies too deep and is reached before the block is full, or the
document fits, every key is free of zero bytes and no sequence has a second element. -/
def Plain (entries : List Entry) : Prop :=
  match documentCut maxDepth entries with
  | some cut => cut.Fits 4
  | none => (document (formatElements maxDepth entries)).length ≤ 2 ^ 30 ∧
      Throughout ZeroFreeKeys (.table none 0 entries) ∧ Throughout AtMostOne (.table none 0 entries)

theorem unforgeable_of_overflow {rt : Runtime} {entries : List Entry}
    (overflow : lencode rt (.table none 0 entries) = .error .overflow) :
    ¬ Unforgeable rt entries := by
  rintro (⟨message, failed⟩ | ⟨bytes, decoded, success, -⟩)
  · rw [overflow] at failed
    cases failed
  · rw [overflow] at success
    cases success

/-- What comes back for a table that fits and in which none lies too deep. -/
theorem unforgeable_whole (rt : Runtime) {entries : List Entry}
    (keyed : Keyed (.table none 0 entries)) (whole : documentCut maxDepth entries = none)
    (bound : (document (formatElements maxDepth entries)).length ≤ 2 ^ 30) :
    Unforgeable rt entries ↔ Throughout ZeroFreeKeys (.table none 0 entries) ∧
      Throughout AtMostOne (.table none 0 entries) := by
  have written := lencode_whole rt keyed whole bound
  have top : elementCut (maxDepth + 1) [] (.table none 0 entries) = none := by
    rw [elementCut_table, whole]
    rfl
  constructor
  · rintro (⟨message, failed⟩ | ⟨bytes, decoded, success, reads, same⟩)
    · rw [written] at failed
      cases failed
    · rw [written] at success
      cases success
      have read := reads _ (Nat.le_refl _)
      have zeroFree := keyed.zeroFree same (ldecode_zeroFree rt read)
      have encodable := keyed.encodable zeroFree top
      rw [ldecode_document rt encodable (Nat.le_refl _) (by omega)] at read
      cases read
      exact ⟨zeroFree, encodable.atMostOne rt same⟩
  · rintro ⟨zeroFree, single⟩
    have encodable := keyed.encodable zeroFree top
    exact .inr ⟨_, _, written, fun fuel enough => ldecode_document rt encodable enough (by omega),
      encodable.comesBack rt single⟩

/-- `bson.encode` refuses a table with string keys of any bytes, or writes a document that
is read back as the same table, exactly when it is plain. -/
theorem lencode_unforgeable_iff (rt : Runtime) (entries : List Entry)
    (keyed : Keyed (.table none 0 entries)) : Unforgeable rt entries ↔ Plain entries := by
  cases stop : documentCut maxDepth entries with
  | some cut =>
      obtain ⟨refused, overflows⟩ := lencode_stops rt keyed stop
      simp only [Plain, stop]
      constructor
      · intro unforgeable
        by_contra full
        exact unforgeable_of_overflow (overflows full) unforgeable
      · exact fun fits => .inl (refused fits)
  | none =>
      simp only [Plain, stop]
      by_cases bound : (document (formatElements maxDepth entries)).length ≤ 2 ^ 30
      · rw [unforgeable_whole rt keyed stop bound]
        exact ⟨fun parts => ⟨bound, parts⟩, fun parts => parts.2⟩
      · have overflow := lencode_overflows rt keyed stop (by omega)
        exact ⟨fun unforgeable => absurd unforgeable (unforgeable_of_overflow overflow),
          fun parts => absurd parts.1 bound⟩

theorem lencode_unforgeable_iff_mixed :
    Unforgeable plainRuntime mixedEntries ↔ Plain mixedEntries :=
  lencode_unforgeable_iff plainRuntime mixedEntries mixedEntries_encodable.keyed

/-- A key that holds the value of its first byte and an element behind a zero byte. -/
def forgedEntries : List Entry := [(.string [97, 0, 1, 8, 98], .boolean true)]

theorem forgedEntries_keyed : Keyed (.table none 0 forgedEntries) := by
  refine .table (by simp [forgedEntries]) (by simp [forgedEntries]) ?_
  intro entry membership
  rw [List.mem_singleton.mp membership]
  exact .scalar (.boolean true)

/-- The table that has the same document. -/
def twinEntries : List Entry := [(.string [97], .boolean true), (.string [98], .boolean true)]

theorem twinEntries_encodable : Encodable False (maxDepth + 1) (.table none 0 twinEntries) := by
  refine .table (by simp [twinEntries]) (by simp [twinEntries, LuaValue.rawEqual]) ?_
  simp only [twinEntries, List.mem_cons, List.not_mem_nil, or_false]
  rintro entry (rfl | rfl)
  · exact .scalar (.boolean true)
  · exact .scalar (.boolean true)

/-- One entry is encoded, and two come back under other keys. -/
theorem forgedEntries_forged :
    (∃ bytes, lencode plainRuntime (.table none 0 forgedEntries) = .ok bytes ∧
      ldecode plainRuntime 16 (some bytes) = .ok (some (.table none 0 twinEntries))) ∧
    ¬ Unforgeable plainRuntime forgedEntries := by
  have same : formatElements maxDepth forgedEntries = formatElements maxDepth twinEntries := by
    decide +kernel
  have size : (document (formatElements maxDepth forgedEntries)).length = 13 := by decide +kernel
  have written := lencode_whole plainRuntime forgedEntries_keyed rfl (by omega)
  rw [same] at size written
  refine ⟨⟨_, written,
    ldecode_document plainRuntime twinEntries_encodable (by omega) (by omega)⟩, ?_⟩
  rw [← same] at size
  rw [unforgeable_whole plainRuntime forgedEntries_keyed rfl (by omega)]
  rintro ⟨zeroFree, -⟩
  have names := (throughout_table.mp zeroFree).1
  exact names _ (List.mem_singleton_self _) _ rfl (by decide)

end CrossOver.Lua.Bson
