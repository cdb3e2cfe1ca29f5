import CrossOver.Lua.Decoding
import Mathlib.Data.List.Perm.Basic
import Mathlib.Data.List.Perm.Lattice

/-!
# Decoding tables

The array part and the hash part of an encoded table share out its entries.  The
decoder rebuilds the array part by index, with holes left out, and adds the pairs
of the hash part behind it.  The only thing that can go wrong is the header: the
array size is cut to an `int`, and a negative one is announced by its low bits.
-/

namespace CrossOver.Lua

open CrossOver.Lib

/-- A value that stands somewhere in another, as a key or as a value. -/
inductive Inside : LuaValue → LuaValue → Prop where
  | self (value : LuaValue) : Inside value value
  | key {inner : LuaValue} {metapairs : Option (List Entry)} {border : Nat} {entries : List Entry}
      {entry : Entry} : entry ∈ entries → Inside inner entry.1 →
      Inside inner (.table metapairs border entries)
  | value {inner : LuaValue} {metapairs : Option (List Entry)} {border : Nat}
      {entries : List Entry} {entry : Entry} : entry ∈ entries → Inside inner entry.2 →
      Inside inner (.table metapairs border entries)

/-- The array size cut to an `int` is not negative, or its header still says zero. -/
def HeaderFits (border : Nat) : Prop := border % 2 ^ 32 < 2 ^ 31 ∨ border % 32 = 0

def HeadersFit (value : LuaValue) : Prop :=
  ∀ metapairs border entries, Inside (.table metapairs border entries) value → HeaderFits border

structure Good (value : LuaValue) : Prop where
  wellFormed : WellFormed value
  headers : HeadersFit value

theorem good_nil : Good .nil := by
  refine ⟨.nil, ?_⟩
  intro metapairs border entries inside
  cases inside

theorem Good.key {border : Nat} {entries : List Entry}
    (good : Good (.table none border entries)) {entry : Entry} (membership : entry ∈ entries) :
    Good entry.1 := by
  obtain ⟨wellFormed, headers⟩ := good
  cases wellFormed with
  | table border entries keys values isKey notNil distinct =>
      refine ⟨keys entry membership, ?_⟩
      intro metapairs inner innerEntries inside
      exact headers metapairs inner innerEntries (.key membership inside)

theorem Good.value {border : Nat} {entries : List Entry}
    (good : Good (.table none border entries)) {entry : Entry} (membership : entry ∈ entries) :
    Good entry.2 := by
  obtain ⟨wellFormed, headers⟩ := good
  cases wellFormed with
  | table border entries keys values isKey notNil distinct =>
      refine ⟨values entry membership, ?_⟩
      intro metapairs inner innerEntries inside
      exact headers metapairs inner innerEntries (.value membership inside)

theorem rawEqual_comm (first second : LuaValue) :
    LuaValue.rawEqual first second = LuaValue.rawEqual second first := by
  cases first <;> cases second <;> simp [LuaValue.rawEqual, Bool.beq_comm]

section ArrayPart

/-- The entries that the array loop visits from index `i` on. -/
def arrayPart (entries : List Entry) : Nat → Int → List Entry
  | 0, _ => []
  | count + 1, i =>
      (if (rawgeti entries i).isNil then []
        else [(.integer (LuaInteger.ofInt i), rawgeti entries i)]) ++
        arrayPart entries count (i + 1)

theorem rawgeti_mem {entries : List Entry} {index : Int}
    (present : (rawgeti entries index).isNil = false) :
    ∃ key : LuaInteger, key.value = index ∧ (.integer key, rawgeti entries index) ∈ entries := by
  induction entries with
  | nil => cases present
  | cons entry rest inductionHypothesis =>
      obtain ⟨key, value⟩ := entry
      cases key with
      | integer key =>
          by_cases here : key.value = index
          · exact ⟨key, here, by simp [rawgeti, here]⟩
          · simp only [rawgeti, if_neg here] at present ⊢
            obtain ⟨found, foundEq, membership⟩ := inductionHypothesis present
            exact ⟨found, foundEq, List.mem_cons_of_mem _ membership⟩
      | _ =>
          obtain ⟨found, foundEq, membership⟩ := inductionHypothesis present
          exact ⟨found, foundEq, List.mem_cons_of_mem _ membership⟩

theorem rawgeti_eq {entries : List Entry} {key : LuaInteger} {value : LuaValue}
    (distinct : entries.Pairwise
      (fun first second => LuaValue.rawEqual first.1 second.1 = false))
    (membership : (.integer key, value) ∈ entries) : rawgeti entries key.value = value := by
  induction entries with
  | nil => cases membership
  | cons entry rest inductionHypothesis =>
      obtain ⟨headDistinct, restDistinct⟩ := List.pairwise_cons.mp distinct
      rcases List.mem_cons.mp membership with here | later
      · subst here
        simp [rawgeti]
      · have found := inductionHypothesis restDistinct later
        obtain ⟨headKey, headValue⟩ := entry
        cases headKey with
        | integer other =>
            have different := headDistinct _ later
            have keyDifferent : other.value ≠ key.value := by
              intro same
              rw [LuaInteger.ext same] at different
              simp [LuaValue.rawEqual] at different
            simp only [rawgeti, if_neg keyDifferent]
            exact found
        | _ => exact found

theorem mem_arrayPart {entries : List Entry} {count : Nat} {i : Int} {entry : Entry} :
    entry ∈ arrayPart entries count i ↔
      ∃ j, i ≤ j ∧ j < i + count ∧ (rawgeti entries j).isNil = false ∧
        entry = (.integer (LuaInteger.ofInt j), rawgeti entries j) := by
  induction count generalizing i with
  | zero =>
      simp only [arrayPart, List.not_mem_nil, false_iff]
      rintro ⟨j, lower, upper, -⟩
      omega
  | succ count inductionHypothesis =>
      rw [arrayPart, List.mem_append, inductionHypothesis]
      constructor
      · rintro (here | ⟨j, lower, upper, present⟩)
        · split at here
          · cases here
          · refine ⟨i, by omega, by omega, by simp_all, List.mem_singleton.mp here⟩
        · exact ⟨j, by omega, by omega, present⟩
      · rintro ⟨j, lower, upper, present, entryEq⟩
        by_cases first : j = i
        · left
          subst first
          simp [present, entryEq]
        · right
          exact ⟨j, by omega, by omega, present, entryEq⟩

theorem arrayPart_nodup (entries : List Entry) (count : Nat) (i : Int) (lower : 0 < i)
    (upper : i + count ≤ 2 ^ 31) : (arrayPart entries count i).Nodup := by
  induction count generalizing i with
  | zero => simp [arrayPart]
  | succ count inductionHypothesis =>
      have tail := inductionHypothesis (i + 1) (by omega) (by push_cast at upper ⊢; omega)
      rw [arrayPart]
      split_ifs
      · exact tail
      · refine List.nodup_cons.mpr ⟨?_, tail⟩
        intro membership
        obtain ⟨j, jLower, jUpper, -, entryEq⟩ := mem_arrayPart.mp membership
        have keys : LuaInteger.ofInt i = LuaInteger.ofInt j := by
          simpa using congrArg Prod.fst entryEq
        push_cast at upper
        have indices := ofInt_inj_of_bounds keys (by omega) (by omega) (by omega) (by omega)
        omega

theorem inArray_iff {arraySize : Int} {key : LuaValue} :
    inArray arraySize key = true ↔
      ∃ index : LuaInteger, key = .integer index ∧ 0 < index.value ∧ index.value ≤ arraySize := by
  cases key <;> simp [inArray]

/-- The two parts of the encoding share out the entries of a table. -/
theorem entries_perm {entries : List Entry} {arraySize : Int} (bound : arraySize < 2 ^ 31)
    (notNil : ∀ entry ∈ entries, entry.2.isNil = false)
    (distinct : entries.Pairwise
      (fun first second => LuaValue.rawEqual first.1 second.1 = false)) :
    entries.Perm (arrayPart entries arraySize.toNat 1 ++
      entries.filter fun entry => !inArray arraySize entry.1) := by
  have shared : (entries.filter fun entry => inArray arraySize entry.1).Perm
      (arrayPart entries arraySize.toNat 1) := by
    apply (List.perm_ext_iff_of_nodup ?_ ?_).mpr
    · intro entry
      rw [List.mem_filter, inArray_iff, mem_arrayPart]
      constructor
      · rintro ⟨membership, index, keyEq, lower, upper⟩
        obtain ⟨key, value⟩ := entry
        simp only at keyEq
        subst keyEq
        have found := rawgeti_eq distinct membership
        refine ⟨index.value, by omega, by omega, ?_, ?_⟩
        · rw [found]
          exact notNil _ membership
        · rw [found, LuaInteger.ofInt_value]
      · rintro ⟨j, lower, upper, present, entryEq⟩
        obtain ⟨index, indexEq, membership⟩ := rawgeti_mem present
        have keyEq : LuaInteger.ofInt j = index := by rw [← indexEq, LuaInteger.ofInt_value]
        rw [entryEq, keyEq]
        exact ⟨membership, index, rfl, by omega, by omega⟩
    · refine (distinct.filter _).imp_of_mem ?_
      intro first second firstMem _ different same
      obtain ⟨-, index, keyEq, -⟩ : _ ∧ ∃ index : LuaInteger, _ :=
        (List.mem_filter.mp firstMem).imp id inArray_iff.mp
      rw [← same, keyEq] at different
      simp [LuaValue.rawEqual] at different
    · exact arrayPart_nodup entries _ 1 (by omega) (by omega)
  exact (List.filter_append_perm (fun entry : Entry => inArray arraySize entry.1) entries).symm.trans
    (shared.append_right _)

end ArrayPart

section Tables

variable {packed : LuaValue → Except Failure (List Bytes)}
variable {one : ReadBlock → Except Failure (LuaValue × ReadBlock)}
variable {bound : Nat}

/-- The decoder undoes the encoder on encodings of at most `bound` bytes. -/
def Inverse (packed : LuaValue → Except Failure (List Bytes))
    (one : ReadBlock → Except Failure (LuaValue × ReadBlock)) (bound : Nat) : Prop :=
  ∀ value pushes, Good value → packed value = .ok pushes → pushes.flatten.length ≤ bound →
    ∃ value', Same value value' ∧ Decodes one pushes.flatten value'

theorem Decodes.bind {First Second : Type}
    {first : ReadBlock → Except Failure (First × ReadBlock)}
    (second : First → ReadBlock → Except Failure (Second × ReadBlock)) {front back : Bytes}
    {a : First} {b : Second} (decodesFirst : Decodes first front a)
    (decodesSecond : Decodes (second a) back b) :
    Decodes (fun rb => first rb >>= fun read => second read.1 read.2) (front ++ back) b := by
  intro rb rest reads
  rw [List.append_assoc] at reads
  obtain ⟨middle, firstResult, middleReads⟩ := decodesFirst rb _ reads
  obtain ⟨next, secondResult, nextReads⟩ := decodesSecond middle rest middleReads
  refine ⟨next, ?_, nextReads⟩
  simp only [firstResult, ok_bind, secondResult]

theorem rawgeti_good {border : Nat} {entries : List Entry}
    (good : Good (.table none border entries)) (index : Int) : Good (rawgeti entries index) := by
  cases present : (rawgeti entries index).isNil with
  | true =>
      have isNil : rawgeti entries index = .nil := by
        cases value : rawgeti entries index <;> simp_all [LuaValue.isNil]
      rw [isNil]
      exact good_nil
  | false =>
      obtain ⟨key, -, membership⟩ := rawgeti_mem present
      exact good.value membership

/-- Storing the next array element behind elements with smaller indices. -/
theorem setSlot_next {entries stored : List Entry} {i : Int} {element : LuaValue}
    (smaller : ∀ entry ∈ stored, ∃ key : LuaInteger, entry.1 = .integer key ∧ key.value < i)
    (upper : i < 2 ^ 31) (lower : 0 < i) (same : Same (rawgeti entries i) element) :
    ∃ more, setSlot stored (.integer (LuaInteger.ofInt i)) element = stored ++ more ∧
      SameEntries (arrayPart entries 1 i) more ∧
      ∀ entry ∈ more, ∃ key : LuaInteger, entry.1 = .integer key ∧ key.value = i := by
  have index := ofInt_value_of_bounds i (by omega) (by omega)
  have new : ∀ entry ∈ stored,
      LuaValue.rawEqual (.integer (LuaInteger.ofInt i)) entry.1 = false := by
    intro entry membership
    obtain ⟨key, keyEq, less⟩ := smaller entry membership
    have different : LuaInteger.ofInt i ≠ key := by
      intro equal
      rw [← equal, index] at less
      omega
    simpa [keyEq, LuaValue.rawEqual] using different
  have nilEq := same.isNil_eq
  cases present : (rawgeti entries i).isNil with
  | true =>
      have isNil : element = .nil := by
        rw [present] at nilEq
        cases element <;> simp_all [LuaValue.isNil]
      subst isNil
      exact ⟨[], by rw [setSlot_nil_of_new new, List.append_nil],
        by simpa [arrayPart, present] using SameEntries.nil, by simp⟩
  | false =>
      rw [present] at nilEq
      refine ⟨[(.integer (LuaInteger.ofInt i), element)], setSlot_of_new new nilEq, ?_, ?_⟩
      · simpa [arrayPart, present] using SameEntries.cons (.integer _) same .nil
      · simp [index]

theorem unpackArray_decodes {border : Nat} {entries : List Entry}
    (good : Good (.table none border entries)) (inverse : Inverse packed one bound) (count : Nat)
    (i : Int) (pushes : List Bytes) (success : packArray packed entries count i = .ok pushes)
    (short : pushes.flatten.length ≤ bound) (lower : 0 < i) (upper : i + count ≤ 2 ^ 31)
    (stored : List Entry)
    (smaller : ∀ entry ∈ stored, ∃ key : LuaInteger, entry.1 = .integer key ∧ key.value < i) :
    ∃ decoded, SameEntries (arrayPart entries count i) decoded ∧
      (∀ entry ∈ decoded, ∃ key : LuaInteger,
        entry.1 = .integer key ∧ i ≤ key.value ∧ key.value < i + count) ∧
      Decodes (unpackArray one count i stored) pushes.flatten (stored ++ decoded) := by
  induction count generalizing i pushes stored with
  | zero =>
      cases success
      refine ⟨[], .nil, by simp, fun rb rest reads => ⟨rb, ?_, reads⟩⟩
      simp [unpackArray]
  | succ count inductionHypothesis =>
      obtain ⟨element, elementPacked, success⟩ := bind_eq_ok.mp success
      obtain ⟨rest, restPacked, success⟩ := bind_eq_ok.mp success
      cases success
      rw [List.flatten_append, List.length_append] at short
      obtain ⟨decodedElement, same, elementDecodes⟩ :=
        inverse _ element (rawgeti_good good i) elementPacked (by omega)
      push_cast at upper
      obtain ⟨more, storedEq, sameMore, moreKeys⟩ := setSlot_next smaller (by omega) lower same
      obtain ⟨decoded, sameRest, decodedKeys, restDecodes⟩ :=
        inductionHypothesis (i + 1) rest restPacked (by omega) (by omega) (by omega)
          (stored ++ more) (by
            intro entry membership
            rcases List.mem_append.mp membership with old | new
            · obtain ⟨key, keyEq, less⟩ := smaller entry old
              exact ⟨key, keyEq, by omega⟩
            · obtain ⟨key, keyEq, equal⟩ := moreKeys entry new
              exact ⟨key, keyEq, by omega⟩)
      refine ⟨more ++ decoded, ?_, ?_, ?_⟩
      · have split : arrayPart entries (count + 1) i =
            arrayPart entries 1 i ++ arrayPart entries count (i + 1) := by simp [arrayPart]
        rw [split]
        exact sameMore.append sameRest
      · intro entry membership
        push_cast
        rcases List.mem_append.mp membership with new | later
        · obtain ⟨key, keyEq, equal⟩ := moreKeys entry new
          exact ⟨key, keyEq, by omega, by omega⟩
        · obtain ⟨key, keyEq, above, below⟩ := decodedKeys entry later
          exact ⟨key, keyEq, by omega, by omega⟩
      · rw [List.flatten_append, ← List.append_assoc]
        rw [← storedEq] at restDecodes
        have both := Decodes.bind (fun element rb => unpackArray one count (i + 1)
          (setSlot stored (.integer (LuaInteger.ofInt i)) element) rb) elementDecodes restDecodes
        rw [storedEq] at both
        exact both

/-- The pairs of a table, up to the nil that ends them. -/
theorem unpackHash_decodes (inverse : Inverse packed one bound)
    (nilDecodes : Decodes one wbNil.flatten .nil) (pairs : List Entry) (pushes : List Bytes)
    (success : packPairs packed pairs = .ok pushes) (short : pushes.flatten.length ≤ bound)
    (goodKeys : ∀ pair ∈ pairs, Good pair.1) (goodValues : ∀ pair ∈ pairs, Good pair.2)
    (isKey : ∀ pair ∈ pairs, IsKey pair.1) (notNil : ∀ pair ∈ pairs, pair.2.isNil = false)
    (distinct : pairs.Pairwise (fun first second => LuaValue.rawEqual first.1 second.1 = false))
    (stored : List Entry)
    (new : ∀ pair ∈ pairs, ∀ entry ∈ stored, LuaValue.rawEqual pair.1 entry.1 = false) :
    ∃ decoded, SameEntries pairs decoded ∧ ∀ fuel, pairs.length < fuel →
      Decodes (unpackHash one fuel stored) pushes.flatten (stored ++ decoded) := by
  induction pairs generalizing pushes stored with
  | nil =>
      cases success
      refine ⟨[], .nil, fun fuel enough rb rest reads => ?_⟩
      obtain ⟨fuel, rfl⟩ := Nat.exists_eq_add_one_of_ne_zero (Nat.ne_of_gt enough)
      obtain ⟨next, result, nextReads⟩ := nilDecodes rb rest reads
      refine ⟨next, ?_, nextReads⟩
      simp only [unpackHash, result, ok_bind, LuaValue.isNil, List.append_nil]
      rfl
  | cons pair rest inductionHypothesis =>
      obtain ⟨key, value⟩ := pair
      obtain ⟨keyPushes, keyPacked, success⟩ := bind_eq_ok.mp success
      obtain ⟨valuePushes, valuePacked, success⟩ := bind_eq_ok.mp success
      obtain ⟨restPushes, restPacked, success⟩ := bind_eq_ok.mp success
      cases success
      rw [List.flatten_append, List.flatten_append, List.length_append, List.length_append] at short
      obtain ⟨headDistinct, restDistinct⟩ := List.pairwise_cons.mp distinct
      obtain ⟨key', sameKey, keyDecodes⟩ :=
        inverse key keyPushes (goodKeys _ List.mem_cons_self) keyPacked (by omega)
      obtain ⟨value', sameValue, valueDecodes⟩ :=
        inverse value valuePushes (goodValues _ List.mem_cons_self) valuePacked (by omega)
      obtain ⟨keyNotNil, normalized⟩ := sameKey.isKey (isKey _ List.mem_cons_self)
      have valueNotNil : value'.isNil = false := by
        rw [sameValue.isNil_eq]
        exact notNil _ List.mem_cons_self
      have storedEq : rawset stored key' value' = .ok (stored ++ [(key', value')]) := by
        rw [rawset, normalized]
        simp only
        rw [setSlot_of_new _ valueNotNil]
        intro entry membership
        rw [sameKey.rawEqual_right]
        exact new _ List.mem_cons_self entry membership
      obtain ⟨decoded, sameRest, restDecodes⟩ :=
        inductionHypothesis restPushes restPacked (by omega)
          (fun pair membership => goodKeys pair (List.mem_cons_of_mem _ membership))
          (fun pair membership => goodValues pair (List.mem_cons_of_mem _ membership))
          (fun pair membership => isKey pair (List.mem_cons_of_mem _ membership))
          (fun pair membership => notNil pair (List.mem_cons_of_mem _ membership))
          restDistinct (stored ++ [(key', value')]) (by
            intro pair membership entry stores
            rcases List.mem_append.mp stores with old | last
            · exact new pair (List.mem_cons_of_mem _ membership) entry old
            · rw [List.mem_singleton.mp last, sameKey.rawEqual_left, rawEqual_comm]
              exact headDistinct pair membership)
      refine ⟨(key', value') :: decoded, .cons sameKey sameValue sameRest, ?_⟩
      intro fuel enough rb after reads
      rw [List.length_cons] at enough
      obtain ⟨fuel, rfl⟩ := Nat.exists_eq_add_one_of_ne_zero (Nat.ne_of_gt (Nat.zero_lt_of_lt enough))
      simp only [List.flatten_append, List.append_assoc] at reads
      obtain ⟨afterKey, keyResult, keyReads⟩ := keyDecodes rb _ reads
      obtain ⟨afterValue, valueResult, valueReads⟩ := valueDecodes afterKey _ keyReads
      obtain ⟨next, restResult, nextReads⟩ :=
        restDecodes fuel (Nat.lt_of_succ_lt_succ enough) afterValue after valueReads
      refine ⟨next, ?_, nextReads⟩
      simp only [unpackHash, keyResult, ok_bind, keyNotNil, Bool.false_eq_true, if_false,
        valueResult, storedEq, restResult, List.append_assoc, List.singleton_append]

theorem packPairs_length {pairs : List Entry} {pushes : List Bytes}
    (positive : ∀ value pushes, packed value = .ok pushes → 0 < pushes.flatten.length)
    (success : packPairs packed pairs = .ok pushes) : pairs.length < pushes.flatten.length := by
  induction pairs generalizing pushes with
  | nil =>
      cases success
      decide
  | cons pair rest inductionHypothesis =>
      obtain ⟨keyPushes, keyPacked, success⟩ := bind_eq_ok.mp success
      obtain ⟨valuePushes, valuePacked, success⟩ := bind_eq_ok.mp success
      obtain ⟨restPushes, restPacked, success⟩ := bind_eq_ok.mp success
      cases success
      have keyPositive := positive _ _ keyPacked
      have restLonger := inductionHypothesis restPacked
      simp only [List.flatten_append, List.length_append, List.length_cons]
      omega

theorem headerFits_iff (border : Nat) :
    HeaderFits border ↔ 0 ≤ int32Of border ∨ int32Of border % 32 = 0 := by
  simp only [HeaderFits, int32Of, Int.bmod]
  split <;> omega

/-- A short header announces as many array elements as are written behind it
exactly when it fits. -/
theorem headerCookie_eq_iff {border : Nat} (short : int32Of border < 31) :
    (combineType typeTable (int32Of border)).toNat / 8 = (int32Of border).toNat ↔
      HeaderFits border := by
  rw [headerFits_iff]
  simp only [combineType, typeTable, UInt8.toNat_ofNat']
  omega

theorem arrayHeader_decodes {border : Nat} (fits : HeaderFits border) :
    ∃ cookie tail size,
      (arrayHeader (int32Of border)).flatten = combineType typeTable (cookie : Nat) :: tail ∧
      cookie < 32 ∧ Decodes (fun rb => unpackArraySize rb cookie) tail size ∧
      size.toNat = (int32Of border).toNat := by
  obtain ⟨lower, upper⟩ := int32Of_bounds border
  have stable : int32Of (int32Of border) = int32Of border := int32Of_of_bounds lower upper
  by_cases long : int32Of border ≥ 31
  · have header : (arrayHeader (int32Of border)).flatten =
        combineType typeTable (31 : Nat) :: (wbInteger (int32Of border)).flatten := by
      have isLong : int32Of border ≥ (maxCookie : Int) - 1 := long
      have cookieEq : (maxCookie : Int) - 1 = ((31 : Nat) : Int) := rfl
      rw [arrayHeader, if_pos isLong, cookieEq, List.flatten_cons, List.singleton_append]
    obtain ⟨cookie, tail, bytes, cookieBound, decodes⟩ :=
      wbInteger_getInteger ⟨int32Of border, by omega, by omega⟩
    refine ⟨31, _, int32Of border, header, by decide, ?_, rfl⟩
    rw [bytes]
    intro rb rest reads
    obtain ⟨middle, read, middleReads⟩ :=
      readByte_decodes 437 (combineType typeNumber cookie) rb (tail ++ rest) reads
    obtain ⟨next, result, nextReads⟩ := decodes middle rest middleReads
    refine ⟨next, ?_, nextReads⟩
    rw [combineType_toNat (by decide) (by omega)] at read
    have isInteger : ¬ ((typeNumber + 8 * cookie) % 8 ≠ typeNumber ∨
        cookie = typeNumberReal) := by
      simp only [typeNumber, typeNumberReal]
      omega
    have cookieEq : (typeNumber + 8 * cookie) / 8 = cookie := by
      simp only [typeNumber]
      omega
    simp only [unpackArraySize, maxCookie, Nat.add_one_sub_one, if_true, read, ok_bind,
      cookieEq, if_neg isInteger, result, stable]
    rfl
  · rw [headerFits_iff] at fits
    refine ⟨((int32Of border) % 32).toNat, [], ((int32Of border) % 32).toNat, ?_, by omega, ?_,
      by omega⟩
    · have isShort : ¬ int32Of border ≥ (maxCookie : Int) - 1 := long
      have same : ((typeTable : Int) + 8 * int32Of border) % 256 =
          ((typeTable : Int) + 8 * ((int32Of border % 32).toNat : Int)) % 256 := by omega
      rw [arrayHeader, if_neg isShort, combineType, combineType, same]
      rfl
    · intro rb rest reads
      refine ⟨rb, ?_, reads⟩
      have notLong : ((int32Of border) % 32).toNat ≠ 32 - 1 := by omega
      simp only [unpackArraySize, maxCookie, if_neg notLong]

theorem unpackTable_decodes (rawlen : List Entry → Nat) {border : Nat} {entries : List Entry}
    (good : Good (.table none border entries)) (inverse : Inverse packed one bound)
    (nilDecodes : Decodes one wbNil.flatten .nil)
    (positive : ∀ value pushes, packed value = .ok pushes → 0 < pushes.flatten.length)
    {array hash : List Bytes}
    (arrayPacked : packArray packed entries (int32Of border).toNat 1 = .ok array)
    (hashPacked : wbTableHash packed (int32Of border) entries = .ok hash)
    (short : array.flatten.length + hash.flatten.length ≤ bound)
    {cookie : Nat} {tail : Bytes} {size : Int} (sizeEq : size.toNat = (int32Of border).toNat)
    (sizeDecodes : Decodes (fun rb => unpackArraySize rb cookie) tail size) :
    ∃ value', Same (.table none border entries) value' ∧
      Decodes (fun rb => unpackTable rawlen one rb cookie)
        (tail ++ (array.flatten ++ hash.flatten)) value' := by
  obtain ⟨lower, upper⟩ := int32Of_bounds border
  obtain ⟨-, -, isKey, notNil, distinct⟩ :
      (∀ entry ∈ entries, WellFormed entry.1) ∧ (∀ entry ∈ entries, WellFormed entry.2) ∧
      (∀ entry ∈ entries, IsKey entry.1) ∧ (∀ entry ∈ entries, entry.2.isNil = false) ∧
      entries.Pairwise (fun first second => LuaValue.rawEqual first.1 second.1 = false) := by
    cases good.wellFormed with
    | table border entries keys values isKey notNil distinct =>
        exact ⟨keys, values, isKey, notNil, distinct⟩
  have kept : ∀ pair ∈ entries.filter (fun entry => !inArray (int32Of border) entry.1),
      pair ∈ entries := fun pair membership => (List.mem_filter.mp membership).1
  obtain ⟨decodedArray, sameArray, arrayKeys, arrayDecodes⟩ :=
    unpackArray_decodes good inverse _ 1 array arrayPacked (by omega) (by omega) (by omega) []
      (by simp)
  obtain ⟨decodedHash, sameHash, hashDecodes⟩ : ∃ decoded,
      SameEntries (entries.filter fun entry => !inArray (int32Of border) entry.1) decoded ∧
      ∀ fuel, hash.flatten.length < fuel →
        Decodes (unpackHash one fuel decodedArray) hash.flatten (decodedArray ++ decoded) := by
    obtain ⟨decoded, same, decodes⟩ := unpackHash_decodes inverse nilDecodes _ hash hashPacked
      (by omega) (fun pair membership => good.key (kept pair membership))
      (fun pair membership => good.value (kept pair membership))
      (fun pair membership => isKey pair (kept pair membership))
      (fun pair membership => notNil pair (kept pair membership)) (distinct.filter _)
      decodedArray (by
        intro pair membership entry stored
        obtain ⟨index, indexEq, above, below⟩ := arrayKeys entry stored
        have outside := (List.mem_filter.mp membership).2
        cases keyEq : pair.1 with
        | integer key =>
            rw [keyEq] at outside
            have different : key ≠ index := by
              rintro rfl
              simp only [inArray] at outside
              simp at outside
              omega
            simpa [indexEq, LuaValue.rawEqual] using different
        | _ => simp [indexEq, LuaValue.rawEqual])
    have count := packPairs_length positive hashPacked
    exact ⟨decoded, same, fun fuel enough => decodes fuel (by omega)⟩
  refine ⟨.table none (rawlen (decodedArray ++ decodedHash)) (decodedArray ++ decodedHash),
    .table (entries_perm upper notNil distinct) (sameArray.append sameHash), ?_⟩
  intro rb rest reads
  simp only [List.append_assoc] at reads
  obtain ⟨afterSize, sizeResult, sizeReads⟩ := sizeDecodes rb _ reads
  obtain ⟨afterArray, arrayResult, arrayReads⟩ := arrayDecodes afterSize _ sizeReads
  have left := arrayReads.len
  rw [List.length_append] at left
  obtain ⟨next, hashResult, nextReads⟩ :=
    hashDecodes (afterArray.len.toNat + 1) (by omega) afterArray rest arrayReads
  refine ⟨next, ?_, nextReads⟩
  rw [List.nil_append] at arrayResult
  simp only [unpackTable, sizeResult, ok_bind, sizeEq, arrayResult, hashResult]
  rfl

end Tables

end CrossOver.Lua
