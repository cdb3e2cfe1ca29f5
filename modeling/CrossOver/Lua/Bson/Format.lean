import CrossOver.Lua.Bson.Encode
import CrossOver.Lua.Bson.Capacity
import Mathlib.Data.List.Perm.Basic

/-!
# The bytes of an encoded table

`format` gives the type and the payload of an element without a buffer, and
`Encodable` says for which values `pack_dict` writes exactly these bytes.
`Document` is the grammar they belong to: every length in front of a document
is the number of its bytes.
-/

namespace CrossOver.Lua.Bson

open CrossOver.Lib

def element (type : UInt8) (key payload : Bytes) : Bytes := [type] ++ (key ++ [0]) ++ payload

/-- An element by its parts. -/
structure Field where
  type : UInt8
  key : Bytes
  payload : Bytes

def Field.bytes (field : Field) : Bytes := element field.type field.key field.payload

def fieldsBytes (fields : List Field) : Bytes := fields.flatMap Field.bytes

/-- A document counts its own length field and the zero byte at its end. -/
def document (elements : Bytes) : Bytes := intBytes 4 (elements.length + 5) ++ (elements ++ [0])

@[simp]
theorem intBytes_length (width : Nat) (value : Int) : (intBytes width value).length = width := by
  simp [intBytes]

theorem document_length (elements : Bytes) : (document elements).length = elements.length + 5 := by
  simp only [document, List.length_append, intBytes_length, List.length_cons, List.length_nil]
  omega

section Values

/-- The strings that the constructors of the module make. -/
inductive Special : Bytes → Prop where
  | binary (data : Bytes) : Special (lbinary data)
  | objectid (id : Bytes) : id.length = 12 → Special (objectidTag ++ id)
  | date (d : Int) : Special (ldate d)
  | timestamp (d inc : Int) : Special (ltimestamp d inc)
  | regex (pattern options : Bytes) : 0 ∉ pattern → 0 ∉ options →
      Special (lregex pattern options)
  | null : Special null
  | minkey : Special minkey
  | maxkey : Special maxkey

theorem hexBytes_length (count : Nat) (str : Bytes) (even : str.length = 2 * count) :
    (hexBytes str).length = count := by
  induction count generalizing str with
  | zero => simp [List.eq_nil_of_length_eq_zero even, hexBytes]
  | succ count inductionHypothesis =>
      match str, even with
      | high :: low :: rest, even =>
          simp only [hexBytes, List.length_cons]
          rw [inductionHypothesis rest (by simp only [List.length_cons] at even; omega)]

theorem lobjectid_special {str made : Bytes} (success : lobjectid str = .ok made) :
    Special made := by
  simp only [lobjectid] at success
  split_ifs at success with length
  cases success
  exact .objectid _ (hexBytes_length 12 str (by omega))

theorem lobjectidNew_special (ti oidCounter : Nat) (oidHeader : Bytes)
    (header : oidHeader.length = 5) : Special (lobjectidNew ti oidHeader oidCounter) := by
  rw [lobjectidNew, List.append_assoc, List.append_assoc]
  exact .objectid _ (by simp [header])

/-- A string that is encoded as it is. -/
def IsPlain (str : Bytes) : Prop := ¬ (1 < str.length ∧ str.head? = some 0)

inductive Scalar : LuaValue → Prop where
  | boolean (value : Bool) : Scalar (.boolean value)
  | integer (value : LuaInteger) : Scalar (.integer value)
  | number (bits : UInt64) : Scalar (.number bits)
  | plain (str : Bytes) : IsPlain str → Scalar (.string str)
  | special (str : Bytes) : Special str → Scalar (.string str)

def sequenceKeys (n : Nat) : List LuaValue :=
  (List.range n).map fun i : Nat => .integer (LuaInteger.ofInt (i + 1))

/-- What `pack_dict` takes with `left` levels to go: tables with string keys,
and sequences where `arrays` are allowed. -/
inductive Encodable (arrays : Prop) : Nat → LuaValue → Prop where
  | scalar {left : Nat} {value : LuaValue} : Scalar value → Encodable arrays left value
  | table {left : Nat} {entries : List Entry} :
      (∀ entry ∈ entries, ∃ str, entry.1 = .string str ∧ 0 ∉ str) →
      entries.Pairwise (fun first second => LuaValue.rawEqual first.1 second.1 = false) →
      (∀ entry ∈ entries, Encodable arrays left entry.2) →
      Encodable arrays (left + 1) (.table none 0 entries)
  | array {left border : Nat} {entries : List Entry} : arrays →
      isArray border entries = .ok true →
      (entries.map Prod.fst).Perm (sequenceKeys border) →
      (∀ entry ∈ entries, Encodable arrays left entry.2) →
      Encodable arrays (left + 1) (.table none border entries)

/-- A table with string keys, whose values are scalars, such tables or sequences.  The
keys are any bytes and the nesting has no bound. -/
inductive Keyed : LuaValue → Prop where
  | scalar {value : LuaValue} : Scalar value → Keyed value
  | table {entries : List Entry} :
      (∀ entry ∈ entries, ∃ str, entry.1 = .string str) →
      entries.Pairwise (fun first second => LuaValue.rawEqual first.1 second.1 = false) →
      (∀ entry ∈ entries, Keyed entry.2) →
      Keyed (.table none 0 entries)
  | array {border : Nat} {entries : List Entry} :
      isArray border entries = .ok true →
      (entries.map Prod.fst).Perm (sequenceKeys border) →
      (∀ entry ∈ entries, Keyed entry.2) →
      Keyed (.table none border entries)

end Values

section Bytes

def specialPayload (subt : UInt8) (str : Bytes) : Bytes :=
  if subt = bsonBinary then intBytes 4 (str.length - 1) ++ str
  else if subt = bsonDate then intBytes 8 (leValue str * 1000)
  else str

def stringFormat : Bytes → UInt8 × Bytes
  | 0 :: subt :: str => (subt, specialPayload subt str)
  | str => (bsonString, intBytes 4 (str.length + 1) ++ (str ++ [0]))

def entryName : LuaValue → Bytes
  | .string str => str
  | key => arrayKey key

def holdsArray (border : Nat) (entries : List Entry) : Bool :=
  match isArray border entries with
  | .ok isarray => isarray
  | .error _ => false

/-- The type and the payload of a value. -/
def format : Nat → LuaValue → UInt8 × Bytes
  | _, .boolean value => (bsonBoolean, [if value then 1 else 0])
  | _, .integer i =>
      if is32bit i.value then (bsonInt32, intBytes 4 i.value) else (bsonInt64, intBytes 8 i.value)
  | _, .number bits => (bsonReal, leBytes 8 bits.toNat)
  | _, .string str => stringFormat str
  | left + 1, .table _ border entries =>
      (if holdsArray border entries then bsonArray else bsonDocument,
        document (entries.flatMap fun entry =>
          element (format left entry.2).1 (entryName entry.1) (format left entry.2).2))
  | _, _ => (0, [])

def formatElement (left : Nat) (entry : Entry) : Bytes :=
  element (format left entry.2).1 (entryName entry.1) (format left entry.2).2

def formatElements (left : Nat) (entries : List Entry) : Bytes :=
  entries.flatMap (formatElement left)

theorem format_table (left border : Nat) (metapairs : Option (List Entry)) (entries : List Entry) :
    format (left + 1) (.table metapairs border entries) =
      (if holdsArray border entries then bsonArray else bsonDocument,
        document (formatElements left entries)) := rfl

def elementsCut (left : Nat) (first : Entry → Option Cut) : List Entry → Option Cut
  | [] => none
  | entry :: rest =>
      match first entry with
      | some cut => some cut
      | none =>
          (elementsCut left first rest).map fun cut => cut.behind (formatElement left entry).length

/-- What is written of an element in front of the first table that lies too deep. -/
def elementCut : Nat → Bytes → LuaValue → Option Cut
  | 0, key, .table _ _ _ => some { written := key.length + 2, name := key.length }
  | left + 1, key, .table _ _ entries =>
      (elementsCut left (fun entry => elementCut left (entryName entry.1) entry.2) entries).map
        fun cut => cut.behind (key.length + 6)
  | _, _, _ => none

/-- What `pack_dict` writes of the elements of a table with `left` levels to go. -/
def documentCut (left : Nat) (entries : List Entry) : Option Cut :=
  elementsCut left (fun entry => elementCut left (entryName entry.1) entry.2) entries

theorem elementCut_table (left border : Nat) (key : Bytes) (metapairs : Option (List Entry))
    (entries : List Entry) : elementCut (left + 1) key (.table metapairs border entries) =
      (documentCut left entries).map fun cut => cut.behind (key.length + 6) := rfl

theorem elementsCut_none {left : Nat} {first : Entry → Option Cut} {entries : List Entry} :
    elementsCut left first entries = none ↔ ∀ entry ∈ entries, first entry = none := by
  induction entries with
  | nil => simp [elementsCut]
  | cons entry rest inductionHypothesis =>
      rw [elementsCut, List.forall_mem_cons, ← inductionHypothesis]
      cases here : first entry <;> simp

end Bytes

section Grammar

/-- The width of a payload that has no length of its own. -/
def fixedWidth (type : UInt8) : Option Nat :=
  if type = bsonReal ∨ type = bsonDate ∨ type = bsonTimestamp ∨ type = bsonInt64 then some 8
  else if type = bsonInt32 then some 4
  else if type = bsonBoolean then some 1
  else if type = bsonObjectid then some 12
  else if type = bsonNull ∨ type = bsonMinkey ∨ type = bsonMaxkey then some 0
  else none

/-- How far a payload that is kept with its own length reaches past what the length counts. -/
def rawBehind (type : UInt8) : Option Int :=
  if type = bsonDbpointer then some 12
  else if type = bsonJscode ∨ type = bsonSymbol then some 0
  else if type = bsonCodews then some (-4)
  else none

theorem rawBehind_cases {type : UInt8} {behind : Int} (known : rawBehind type = some behind) :
    type = bsonDbpointer ∧ behind = 12 ∨ (type = bsonJscode ∨ type = bsonSymbol) ∧ behind = 0 ∨
      type = bsonCodews ∧ behind = -4 := by
  unfold rawBehind at known
  split_ifs at known with dbpointer code codews <;> cases known
  · exact .inl ⟨dbpointer, rfl⟩
  · exact .inr (.inl ⟨code, rfl⟩)
  · exact .inr (.inr ⟨codews, rfl⟩)

theorem rawBehind_bounds {type : UInt8} {behind : Int} (known : rawBehind type = some behind) :
    -4 ≤ behind ∧ behind ≤ 12 := by
  rcases rawBehind_cases known with ⟨-, rfl⟩ | ⟨-, rfl⟩ | ⟨-, rfl⟩ <;> decide

theorem rawBehind_unsized {type : UInt8} {behind : Int} (known : rawBehind type = some behind) :
    fixedWidth type = none := by
  rcases rawBehind_cases known with ⟨rfl, -⟩ | ⟨rfl | rfl, -⟩ | ⟨rfl, -⟩ <;> rfl

mutual

inductive Document : Bytes → Prop where
  | mk {elements : Bytes} : Elements elements → Document (document elements)

inductive Elements : Bytes → Prop where
  | nil : Elements []
  | cons {type : UInt8} {key payload rest : Bytes} : 0 ∉ key → Payload type payload →
      Elements rest → Elements (element type key payload ++ rest)

inductive Payload : UInt8 → Bytes → Prop where
  | fixed {type : UInt8} {payload : Bytes} : fixedWidth type = some payload.length →
      Payload type payload
  | string (str : Bytes) : Payload bsonString (intBytes 4 (str.length + 1) ++ (str ++ [0]))
  | binary (subtype : UInt8) (data : Bytes) :
      Payload bsonBinary (intBytes 4 data.length ++ (subtype :: data))
  | regex {pattern options : Bytes} : 0 ∉ pattern → 0 ∉ options →
      Payload bsonRegex (pattern ++ [0] ++ options ++ [0])
  | raw {type : UInt8} {behind : Int} (data : Bytes) : rawBehind type = some behind →
      Payload type (intBytes 4 (data.length - behind) ++ data)
  | document {payload : Bytes} : Document payload → Payload bsonDocument payload
  | array {payload : Bytes} : Document payload → Payload bsonArray payload

end

theorem special_payload {str : Bytes} (special : Special str) :
    Payload (stringFormat str).1 (stringFormat str).2 := by
  cases special with
  | binary data =>
      have length : (((0 :: data).length : Nat) : Int) - 1 = data.length := by
        simp only [List.length_cons]
        omega
      change Payload bsonBinary (intBytes 4 ((0 :: data).length - 1) ++ (0 :: data))
      rw [length]
      exact .binary 0 data
  | objectid id length =>
      refine .fixed ?_
      change some 12 = some id.length
      rw [length]
  | date d => exact .fixed rfl
  | timestamp d inc => exact .fixed rfl
  | regex pattern options noZero noZero' => exact .regex noZero noZero'
  | null => exact .fixed rfl
  | minkey => exact .fixed rfl
  | maxkey => exact .fixed rfl

theorem stringFormat_plain {str : Bytes} (plain : IsPlain str) :
    stringFormat str = (bsonString, intBytes 4 (str.length + 1) ++ (str ++ [0])) := by
  match str with
  | [] => rfl
  | [first] => rw [stringFormat]; simp
  | first :: second :: rest =>
      have notZero : first ≠ 0 := by
        rintro rfl
        exact plain ⟨by simp, rfl⟩
      rw [stringFormat]
      intro subt str same
      simp only [List.cons.injEq] at same
      exact notZero same.1

theorem scalar_payload {value : LuaValue} (scalar : Scalar value) (left : Nat) :
    Payload (format left value).1 (format left value).2 := by
  cases scalar with
  | boolean value =>
      simp only [format]
      exact .fixed rfl
  | integer value =>
      simp only [format]
      split_ifs <;> exact .fixed rfl
  | number bits =>
      simp only [format]
      exact .fixed rfl
  | plain str plain =>
      simp only [format, stringFormat_plain plain]
      exact .string str
  | special str special =>
      simp only [format]
      exact special_payload special

theorem decimal_noZero (n : Nat) : 0 ∉ decimal n := by
  intro membership
  obtain ⟨digit, isDigit, zero⟩ := List.mem_map.mp membership
  have bounds := Nat.isDigit_of_mem_toDigits (by decide) (by decide) isDigit
  simp only [Char.isDigit, Bool.and_eq_true, decide_eq_true_eq] at bounds
  have low : 48 ≤ digit.toNat := bounds.1
  have high : digit.toNat ≤ 57 := bounds.2
  have value := congrArg UInt8.toNat zero
  simp only [UInt8.toNat_ofNat'] at value
  change digit.toNat % 256 = 0 at value
  omega

theorem arrayKey_noZero (key : LuaValue) : 0 ∉ arrayKey key := by
  simp only [arrayKey, bsonNumstr]
  split_ifs
  · exact List.not_mem_nil
  · exact decimal_noZero _

theorem Encodable.table_names {entries : List Entry}
    (keys : ∀ entry ∈ entries, ∃ str, entry.1 = .string str ∧ 0 ∉ str) :
    ∀ entry ∈ entries, 0 ∉ entryName entry.1 := by
  intro entry membership
  obtain ⟨str, key, noZero⟩ := keys entry membership
  rw [key]
  exact noZero

theorem Encodable.array_keys {border : Nat} {entries : List Entry}
    (keys : (entries.map Prod.fst).Perm (sequenceKeys border)) :
    ∀ entry ∈ entries, ∃ i : Nat, i < border ∧
      entry.1 = .integer (LuaInteger.ofInt (i + 1)) := by
  intro entry membership
  have inKeys := keys.subset (List.mem_map_of_mem membership)
  obtain ⟨i, bound, key⟩ := List.mem_map.mp inKeys
  exact ⟨i, List.mem_range.mp bound, key.symm⟩

theorem Encodable.array_names {border : Nat} {entries : List Entry}
    (keys : (entries.map Prod.fst).Perm (sequenceKeys border)) :
    ∀ entry ∈ entries, 0 ∉ entryName entry.1 := by
  intro entry membership
  obtain ⟨i, -, key⟩ := Encodable.array_keys keys entry membership
  rw [key]
  exact arrayKey_noZero _

theorem formatElements_elements {arrays : Prop} {left : Nat} (entries : List Entry)
    (payloads : ∀ value, Encodable arrays left value →
      Payload (format left value).1 (format left value).2)
    (names : ∀ entry ∈ entries, 0 ∉ entryName entry.1)
    (encodable : ∀ entry ∈ entries, Encodable arrays left entry.2) :
    Elements (formatElements left entries) := by
  induction entries with
  | nil => exact .nil
  | cons entry rest inductionHypothesis =>
      refine .cons (names entry List.mem_cons_self)
        (payloads entry.2 (encodable entry List.mem_cons_self)) (inductionHypothesis ?_ ?_)
      · exact fun other membership => names other (List.mem_cons_of_mem _ membership)
      · exact fun other membership => encodable other (List.mem_cons_of_mem _ membership)

theorem format_payload {arrays : Prop} (left : Nat) (value : LuaValue)
    (encodable : Encodable arrays left value) :
    Payload (format left value).1 (format left value).2 := by
  induction left generalizing value with
  | zero =>
      cases encodable with
      | scalar scalar => exact scalar_payload scalar 0
  | succ left inductionHypothesis =>
      cases encodable with
      | scalar scalar => exact scalar_payload scalar _
      | table keys distinct values =>
          exact .document (.mk (formatElements_elements _ inductionHypothesis
            (Encodable.table_names keys) values))
      | array allowed isarray keys values =>
          rw [format_table, holdsArray, isarray]
          exact .array (.mk (formatElements_elements _ inductionHypothesis
            (Encodable.array_names keys) values))

theorem format_document {arrays : Prop} {left border : Nat} {entries : List Entry}
    (encodable : Encodable arrays (left + 1) (.table none border entries)) :
    Document (document (formatElements left entries)) := by
  cases encodable with
  | scalar scalar => cases scalar
  | table keys distinct values =>
      exact .mk (formatElements_elements _ (format_payload left) (Encodable.table_names keys) values)
  | array allowed isarray keys values =>
      exact .mk (formatElements_elements _ (format_payload left) (Encodable.array_names keys) values)

end Grammar

end CrossOver.Lua.Bson
