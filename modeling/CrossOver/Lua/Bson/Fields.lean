import CrossOver.Lua.Bson.Settling

/-!
# A document, field by field

A document of the grammar is a list of fields, and both the decoder and
`lmakeindex` pass over one field after the other.  What each of them makes of a
field depends on the bytes of that field and on its place alone.
-/

namespace CrossOver.Lua.Bson

open CrossOver.Lib

structure Field.WellFormed (field : Field) : Prop where
  noZero : 0 ∉ field.key
  payload : Payload field.type field.payload

theorem fieldsBytes_append (front back : List Field) :
    fieldsBytes (front ++ back) = fieldsBytes front ++ fieldsBytes back := List.flatMap_append

theorem fieldsBytes_cons (field : Field) (rest : List Field) :
    fieldsBytes (field :: rest) = field.bytes ++ fieldsBytes rest := rfl

theorem field_bytes_length (field : Field) :
    field.bytes.length = field.key.length + 2 + field.payload.length := by
  simp only [Field.bytes, element, List.length_append, List.length_singleton]
  omega

theorem fieldsBytes_count_le (fields : List Field) :
    fields.length ≤ (fieldsBytes fields).length := by
  induction fields with
  | nil => exact Nat.le_refl _
  | cons field rest inductionHypothesis =>
      have positive := field_bytes_pos field
      rw [fieldsBytes_cons, List.length_append, List.length_cons]
      omega

theorem fieldsBytes_payload_le {fields : List Field} {field : Field} (membership : field ∈ fields) :
    field.payload.length ≤ (fieldsBytes fields).length := by
  have inside : field.bytes.length ≤ (fieldsBytes fields).length :=
    (List.sublist_flatten_of_mem (List.mem_map_of_mem membership)).length_le
  rw [field_bytes_length] at inside
  omega

theorem elements_fields (size : Nat) {elements : Bytes} (bound : elements.length ≤ size)
    (wellFormed : Elements elements) :
    ∃ fields, elements = fieldsBytes fields ∧ ∀ field ∈ fields, field.WellFormed := by
  induction size generalizing elements with
  | zero =>
      have empty := List.eq_nil_of_length_eq_zero (Nat.le_zero.mp bound)
      exact ⟨[], empty, fun field membership => absurd membership List.not_mem_nil⟩
  | succ size inductionHypothesis =>
      cases wellFormed with
      | nil => exact ⟨[], rfl, fun field membership => absurd membership List.not_mem_nil⟩
      | @cons type key payload rest noZero inside others =>
          have positive := field_bytes_pos ⟨type, key, payload⟩
          rw [List.length_append] at bound
          change 0 < (element type key payload).length at positive
          obtain ⟨fields, split, wellFormed⟩ := inductionHypothesis (by omega) others
          refine ⟨⟨type, key, payload⟩ :: fields, by rw [split]; rfl, ?_⟩
          intro field membership
          rcases List.mem_cons.mp membership with rfl | later
          · exact ⟨noZero, inside⟩
          · exact wellFormed field later

theorem document_fields {bytes : Bytes} (wellFormed : Document bytes) :
    ∃ fields, bytes = document (fieldsBytes fields) ∧ ∀ field ∈ fields, field.WellFormed := by
  cases wellFormed with
  | mk elements =>
      obtain ⟨fields, split, each⟩ := elements_fields _ (Nat.le_refl _) elements
      exact ⟨fields, by rw [split], each⟩

section Decoding

variable (rt : Runtime)

/-- A value as the decoder makes it: not nil and the same as itself. -/
structure Made (value : LuaValue) : Prop where
  notNil : value.isNil = false
  refl : Same value value

theorem made_string (bytes : Bytes) : Made (.string bytes) := ⟨rfl, .string bytes⟩

theorem unpackDict_fields {fuel : Nat} (array : Bool) (fields : List (Field × LuaValue))
    (names : ∀ field ∈ fields, 0 ∉ field.1.key)
    (decodes : ∀ field ∈ fields,
      Decodes (readValue (unpackDict rt fuel) field.1.type) field.1.payload field.2)
    (enough : (document (fieldsBytes (fields.map Prod.fst))).length ≤ fuel + 1)
    (short : (document (fieldsBytes (fields.map Prod.fst))).length < 2 ^ 31) :
    Decodes (unpackDict rt (fuel + 1) array) (document (fieldsBytes (fields.map Prod.fst)))
      (.table none (rt.rawlen (storeFields array fields [])) (storeFields array fields [])) := by
  have count := fieldsBytes_count_le (fields.map Prod.fst)
  rw [List.length_map] at count
  rw [document_length] at enough short
  rw [unpackDict_body, document]
  refine Decodes.bind (readInt32_decodes _ (by omega) (by omega)) ?_
  refine unpackBody_decodes rt short ?_
  exact readElements_fields _ fields [] fuel (by omega) names decodes

theorem exists_values {fuel : Nat} (fields : List Field)
    (decodes : ∀ field ∈ fields, ∃ value, Made value ∧
      Decodes (readValue (unpackDict rt fuel) field.type) field.payload value) :
    ∃ read : List (Field × LuaValue), read.map Prod.fst = fields ∧
      ∀ field ∈ read, Made field.2 ∧
        Decodes (readValue (unpackDict rt fuel) field.1.type) field.1.payload field.2 := by
  induction fields with
  | nil => exact ⟨[], rfl, fun field membership => absurd membership List.not_mem_nil⟩
  | cons field rest inductionHypothesis =>
      obtain ⟨value, made, here⟩ := decodes field List.mem_cons_self
      obtain ⟨read, names, others⟩ := inductionHypothesis
        fun other membership => decodes other (List.mem_cons_of_mem _ membership)
      refine ⟨(field, value) :: read, by rw [List.map_cons, names], ?_⟩
      intro other membership
      rcases List.mem_cons.mp membership with rfl | later
      · exact ⟨made, here⟩
      · exact others other later

theorem mem_storeFields {array : Bool} {fields : List (Field × LuaValue)} {stored : List Entry}
    {entry : Entry} (membership : entry ∈ storeFields array fields stored) :
    entry ∈ stored ∨ ∃ field ∈ fields, entry = (elementKey array field.1.key, field.2) := by
  induction fields generalizing stored with
  | nil => exact .inl membership
  | cons field rest inductionHypothesis =>
      rcases inductionHypothesis membership with here | ⟨other, otherIn, made⟩
      · rcases mem_setSlot.mp here with ⟨before, -⟩ | ⟨-, made⟩
        · exact .inl before
        · exact .inr ⟨field, List.mem_cons_self, made⟩
      · exact .inr ⟨other, List.mem_cons_of_mem _ otherIn, made⟩

theorem elementKey_refl (array : Bool) (name : Bytes) :
    Same (elementKey array name) (elementKey array name) := by
  cases array with
  | false => exact .string name
  | true => exact .integer _

theorem made_storeFields {array : Bool} {fields : List (Field × LuaValue)}
    (made : ∀ field ∈ fields, Made field.2) (entry : Entry)
    (membership : entry ∈ storeFields array fields []) :
    Same entry.1 entry.1 ∧ Same entry.2 entry.2 := by
  rcases mem_storeFields membership with nowhere | ⟨field, fieldIn, rfl⟩
  · cases nowhere
  · exact ⟨elementKey_refl array _, (made field fieldIn).refl⟩

theorem made_table {entries : List Entry} (border : Nat)
    (refl : ∀ entry ∈ entries, Same entry.1 entry.1 ∧ Same entry.2 entry.2) :
    Made (.table none border entries) :=
  ⟨rfl, .table (List.Perm.refl _) (.refl entries (fun entry membership => (refl entry membership).1)
    fun entry membership => (refl entry membership).2)⟩

theorem readWord_width {width : Nat} {bytes : Bytes} (length : bytes.length = width) :
    Decodes (readWord width) bytes (leValue bytes) := by
  rw [← length]
  exact readWord_decodes bytes

theorem fixed_decodes (nested : Bool → Decoder LuaValue) {type : UInt8} {payload : Bytes}
    (width : fixedWidth type = some payload.length) :
    ∃ value, Made value ∧ Decodes (readValue nested type) payload value := by
  simp only [fixedWidth] at width
  split_ifs at width with eight int32 boolean objectid empty
  · have length : payload.length = 8 := (Option.some.inj width).symm
    rcases eight with rfl | rfl | rfl | rfl
    · exact ⟨_, ⟨rfl, .number _⟩, ((readWord_width length).map UInt64.ofNat).map LuaValue.number⟩
    · exact ⟨_, made_string _, ((readWord_width length).map (signed 8)).map _⟩
    · have split := (List.take_append_drop 4 payload).symm
      rw [split]
      exact ⟨_, made_string _, readTimestamp_decodes (by simp [length]) (by simp [length])⟩
    · exact ⟨_, ⟨rfl, .integer _⟩, ((readWord_width length).map (signed 8)).map
        fun value => LuaValue.integer (LuaInteger.ofInt value)⟩
  · have length : payload.length = 4 := (Option.some.inj width).symm
    subst int32
    exact ⟨_, ⟨rfl, .integer _⟩, ((readWord_width length).map (signed 4)).map
      fun value => LuaValue.integer (LuaInteger.ofInt value)⟩
  · have length : payload.length = 1 := (Option.some.inj width).symm
    subst boolean
    exact ⟨_, ⟨rfl, .boolean _⟩, ((readWord_width length).map UInt8.ofNat).map
      fun byte => LuaValue.boolean (byte != 0)⟩
  · have length : payload.length = 12 := (Option.some.inj width).symm
    subst objectid
    exact ⟨_, made_string _, readObjectid_decodes length⟩
  · have length : payload = [] := List.eq_nil_of_length_eq_zero (Option.some.inj width).symm
    subst length
    refine ⟨.string [0, type], made_string _, ?_⟩
    rcases empty with rfl | rfl | rfl <;> exact Decodes.pure _

/-- A payload that is kept comes out with its length in front. -/
theorem readRaw_decodes (type : UInt8) {behind : Int} {data : Bytes}
    (lower : -2 ^ 31 ≤ data.length - behind) (upper : data.length - behind < 2 ^ 31)
    (short : data.length + 4 < 2 ^ 31) :
    Decodes (readRaw type behind (behind + 4)) (intBytes 4 (data.length - behind) ++ data)
      (.string ([0, type] ++ (intBytes 4 (data.length - behind) ++ data))) := by
  intro r reads
  have length := readInt32_decodes _ lower upper r reads.front
  have rest : (data.length : Int) - behind + behind = data.length := by omega
  have whole : (data.length : Int) - behind + (behind + 4) =
      (intBytes 4 (data.length - behind) ++ data).length := by
    rw [List.length_append, intBytes_length]
    omega
  change (readInt32 r >>= fun sz => intExpr (sz.1 + behind) sz.2 >>= fun rest =>
    readBytes rest.1 rest.2 >>= fun moved => intExpr (sz.1 + (behind + 4)) moved.2 >>= fun len =>
      makeObject type r.ptr len.1 len.2) = _
  rw [length, ok_bind]
  dsimp only
  rw [rest, intExpr_ok ⟨by omega, by omega⟩, ok_bind]
  dsimp only
  rw [readBytes_ok reads.back, ok_bind, whole, intExpr_ok ⟨by omega, by rw [← whole]; omega⟩,
    ok_bind]
  dsimp only
  rw [Reader.skip_skip, ← List.length_append]
  change (addlstring 2 r.ptr _ _ >>= fun read =>
    Except.ok (LuaValue.string ([0, type] ++ read.1), read.2)) = _
  rw [addlstring_ok (s := r.skip _) 2 reads rfl]
  rfl

theorem raw_decodes (nested : Bool → Decoder LuaValue) {type : UInt8} {behind : Int}
    (known : rawBehind type = some behind) :
    readValue nested type = readRaw type behind (behind + 4) := by
  rcases rawBehind_cases known with ⟨rfl, rfl⟩ | ⟨rfl | rfl, rfl⟩ | ⟨rfl, rfl⟩ <;> rfl

theorem payload_decodes (size : Nat) {type : UInt8} {payload : Bytes}
    (bound : payload.length < size) (wellFormed : Payload type payload)
    (short : payload.length < 2 ^ 31) (fuel : Nat) (enough : payload.length ≤ fuel) :
    ∃ value, Made value ∧ Decodes (readValue (unpackDict rt fuel) type) payload value := by
  induction size generalizing type payload fuel with
  | zero => omega
  | succ size inductionHypothesis =>
      have embedded : ∀ array, Document payload → ∃ value, Made value ∧
          Decodes (unpackDict rt fuel array) payload value := by
        intro array document
        obtain ⟨fields, rfl, each⟩ := document_fields document
        have length := document_length (fieldsBytes fields)
        obtain ⟨fuel, rfl⟩ : ∃ f, fuel = f + 1 := ⟨fuel - 1, by omega⟩
        obtain ⟨read, rfl, values⟩ := exists_values rt fields fun field membership => by
          have inside := fieldsBytes_payload_le membership
          exact inductionHypothesis (by omega) (each field membership).payload (by omega) fuel
            (by omega)
        have made : ∀ field ∈ read, Made field.2 :=
          fun field membership => (values field membership).1
        have names : ∀ field ∈ read, 0 ∉ field.1.key :=
          fun field membership => (each field.1 (List.mem_map_of_mem membership)).noZero
        exact ⟨_, made_table _ (made_storeFields made), unpackDict_fields rt array read names
          (fun field membership => (values field membership).2) enough short⟩
      cases wellFormed with
      | fixed width => exact fixed_decodes _ width
      | string str =>
          simp only [List.length_append, List.length_singleton] at short
          exact ⟨_, made_string str, readPlain_decodes (by omega)⟩
      | binary subtype data =>
          simp only [List.length_append, List.length_cons] at short
          exact ⟨_, made_string _, readBinary_decodes subtype (by omega)⟩
      | regex noZero noZero' => exact ⟨_, made_string _, readRegex_decodes noZero noZero'⟩
      | raw data known =>
          rw [List.length_append, intBytes_length] at short
          have bounds := rawBehind_bounds known
          rw [raw_decodes _ known]
          exact ⟨_, made_string _, readRaw_decodes _ (by omega) (by omega) (by omega)⟩
      | document inner => exact embedded false inner
      | array inner => exact embedded true inner

end Decoding

section Indexing

def Field.sized (field : Field) : Bool := 0 < (fixedWidth field.type).getD 0

def fieldEntry (start : Int) (field : Field) : Option Entry :=
  if field.sized then
    some (.string field.key, .integer (fieldId field.type (start + field.key.length + 2)))
  else none

def indexFields (start : Int) : List Field → List Entry → List Entry
  | [], entries => entries
  | field :: rest, entries =>
      indexFields (start + field.bytes.length) rest (storeField entries (fieldEntry start field))

theorem passValue_decodes {behind sz : Int} {bytes : Bytes} (counted : sz + behind = bytes.length)
    (short : bytes.length < 2 ^ 31) (lower : -2 ^ 31 ≤ sz) (upper : sz < 2 ^ 31) :
    Decodes (passValue behind) (intBytes 4 sz ++ bytes) 0 := by
  refine Decodes.bind (readInt32_decodes sz lower upper) ?_
  intro r reads
  change (intExpr (sz + behind) r >>= fun rest =>
    readBytes rest.1 rest.2 >>= fun moved => Except.ok (0, moved.2)) = _
  rw [counted, intExpr_ok ⟨by omega, by omega⟩]
  change (readBytes bytes.length r >>= fun moved => Except.ok (0, moved.2)) = _
  rw [readBytes_ok reads]
  rfl

theorem fixed_passed {type : UInt8} {width : Nat} (fixed : fixedWidth type = some width) :
    fieldSize type = pure (width : Int) := by
  simp only [fixedWidth] at fixed
  split_ifs at fixed with eight int32 boolean objectid empty <;> cases fixed
  · rcases eight with rfl | rfl | rfl | rfl <;> rfl
  · subst int32
    rfl
  · subst boolean
    rfl
  · subst objectid
    rfl
  · rcases empty with rfl | rfl | rfl <;> rfl

theorem document_passed {type : UInt8} {payload : Bytes} (wellFormed : Document payload)
    (short : payload.length < 2 ^ 31) (passes : fieldSize type = passValue (-4)) :
    Decodes (fieldSize type) payload 0 := by
  cases wellFormed with
  | @mk elements inside =>
      rw [document_length] at short
      rw [passes]
      refine passValue_decodes ?_ ?_ (by omega) (by omega)
      · rw [List.length_append, List.length_singleton]
        omega
      · rw [List.length_append, List.length_singleton]
        omega

theorem raw_passed {type : UInt8} {behind : Int} (known : rawBehind type = some behind) :
    fieldSize type = passValue behind := by
  rcases rawBehind_cases known with ⟨rfl, rfl⟩ | ⟨rfl | rfl, rfl⟩ | ⟨rfl, rfl⟩ <;> rfl

/-- A payload has a fixed width, or `lmakeindex` finds its end by itself. -/
theorem payload_passed {type : UInt8} {payload : Bytes} (wellFormed : Payload type payload)
    (short : payload.length < 2 ^ 31) :
    fixedWidth type = some payload.length ∨
      fixedWidth type = none ∧ Decodes (fieldSize type) payload 0 := by
  cases wellFormed with
  | fixed width => exact .inl width
  | string str =>
      simp only [List.length_append, List.length_singleton, intBytes_length] at short
      refine .inr ⟨rfl, passValue_decodes ?_ ?_ (by omega) (by omega)⟩
      · rw [List.length_append, List.length_singleton]
        omega
      · rw [List.length_append, List.length_singleton]
        omega
  | binary subtype data =>
      simp only [List.length_append, List.length_cons, intBytes_length] at short
      refine .inr ⟨rfl, passValue_decodes ?_ ?_ (by omega) (by omega)⟩
      · rw [List.length_cons]
        omega
      · rw [List.length_cons]
        omega
  | @regex pattern options noZero noZero' =>
      have passed : Decodes (fieldSize bsonRegex) ((pattern ++ [0]) ++ (options ++ [0])) 0 :=
        (readCstring_decodes noZero).bind ((readCstring_decodes noZero').map fun _ => 0)
      rw [← List.append_assoc] at passed
      exact .inr ⟨rfl, passed⟩
  | raw data known =>
      rw [List.length_append, intBytes_length] at short
      have bounds := rawBehind_bounds known
      refine .inr ⟨rawBehind_unsized known, ?_⟩
      rw [raw_passed known]
      exact passValue_decodes (by omega) (by omega) (by omega) (by omega)
  | document inner => exact .inr ⟨rfl, document_passed inner short rfl⟩
  | array inner => exact .inr ⟨rfl, document_passed inner short rfl⟩

theorem readHead_decodes (type : UInt8) {key : Bytes} (noZero : 0 ∉ key) :
    Decodes readHead ([type] ++ (key ++ [0])) (type, key) :=
  (readByte_decodes type).bind ((readCstring_decodes noZero).map _)

theorem indexElement_field {field : Field} (wellFormed : field.WellFormed) {r : Reader}
    (reads : Reads r field.bytes) :
    indexElement r = .ok (fieldEntry r.ptr field, r.skip field.bytes.length) := by
  have short := Int.lt_of_le_of_lt reads.enough reads.narrow
  have length := field_bytes_length field
  have bytes : field.bytes = ([field.type] ++ (field.key ++ [0])) ++ field.payload := by
    simp only [Field.bytes, element, List.append_assoc]
  rw [bytes] at reads
  have name := readHead_decodes field.type wellFormed.noZero r reads.front
  have behind := reads.back
  have header : ([field.type] ++ (field.key ++ [0])).length = field.key.length + 2 := by
    simp only [List.length_append, List.length_singleton]
    omega
  rw [header] at name behind
  have place : (r.skip (field.key.length + 2)).ptr = r.ptr + field.key.length + 2 := by
    change r.ptr + ((field.key.length + 2 : Nat) : Int) = _
    omega
  have whole : (r.skip (field.key.length + 2)).skip field.payload.length =
      r.skip field.bytes.length := by
    rw [Reader.skip_skip, length]
  rw [indexElement_eq]
  change (readHead r >>= fun head => fieldSize head.1.1 head.2 >>= fun size => _) = _
  rw [name, ok_bind]
  dsimp only
  rcases payload_passed wellFormed.payload (by omega) with fixed | ⟨unsized, passes⟩
  · rw [fixed_passed fixed]
    change (if (0 : Int) < field.payload.length then _ else _ : Decoder (Option Entry)) _ = _
    have sized : field.sized = decide (0 < field.payload.length) := by
      rw [Field.sized, fixed, Option.getD_some]
    rw [fieldEntry, sized, ← whole, ← place]
    by_cases some : 0 < field.payload.length
    · rw [if_pos (by omega), if_pos (decide_eq_true some)]
      change (readBytes field.payload.length (r.skip (field.key.length + 2)) >>= fun moved =>
        Except.ok (_, moved.2)) = _
      rw [readBytes_ok behind, ok_bind]
    · have none : field.payload.length = 0 := by omega
      rw [if_neg (by omega), if_neg (by simp [none]), none, Reader.skip_zero]
      rfl
  · have unsized : field.sized = false := by
      rw [Field.sized, unsized]
      rfl
    rw [passes _ behind, ok_bind]
    dsimp only
    rw [if_neg (by decide), fieldEntry, unsized, if_neg Bool.false_ne_true, whole]
    rfl

theorem indexElements_fields (fields : List Field) (entries : List Entry) {fuel : Nat}
    (enough : fields.length < fuel) (wellFormed : ∀ field ∈ fields, field.WellFormed)
    {r : Reader} (reads : Reads r (fieldsBytes fields))
    (size : r.size = (fieldsBytes fields).length) :
    indexElements fuel entries r =
      .ok (indexFields r.ptr fields entries, r.skip (fieldsBytes fields).length) := by
  induction fields generalizing entries fuel r with
  | nil =>
      obtain ⟨fuel, rfl⟩ : ∃ f, fuel = f + 1 := ⟨fuel - 1, by omega⟩
      have empty : r.size = 0 := size
      change (if r.size = 0 then pure entries else _ : Decoder (List Entry)) r = _
      rw [if_pos empty]
      change _ = Except.ok (entries, r.skip 0)
      rw [Reader.skip_zero]
      rfl
  | cons field rest inductionHypothesis =>
      obtain ⟨fuel, rfl⟩ : ∃ f, fuel = f + 1 := ⟨fuel - 1, by omega⟩
      have positive := field_bytes_pos field
      rw [fieldsBytes_cons] at reads size ⊢
      rw [List.length_append] at size
      rw [List.length_cons] at enough
      have here := indexElement_field (wellFormed field List.mem_cons_self) reads.front
      rw [indexElements_turn (by omega), here, ok_bind]
      dsimp only
      have restSize : (r.skip field.bytes.length).size = (fieldsBytes rest).length := by
        change r.size - _ = _
        omega
      rw [inductionHypothesis _ (by omega)
        (fun other later => wellFormed other (List.mem_cons_of_mem _ later)) reads.back restSize,
        Reader.skip_skip, List.length_append]
      rfl

theorem lmakeindex_fields {fields : List Field} {fuel : Nat} (enough : fields.length < fuel)
    (wellFormed : ∀ field ∈ fields, field.WellFormed)
    (short : (document (fieldsBytes fields)).length < 2 ^ 31) :
    lmakeindex fuel (document (fieldsBytes fields)) = .ok (indexFields 4 fields []) := by
  have length := document_length (fieldsBytes fields)
  have header : getLength (document (fieldsBytes fields)) =
      (document (fieldsBytes fields)).length := document_counted short
  rw [lmakeindex, if_neg (by omega), header, length]
  change (intExpr _ _ >>= fun start => indexElements fuel [] { start.2 with size := start.1 } >>=
    fun made => Except.ok made.1) = _
  rw [intExpr_ok ⟨by omega, by omega⟩, ok_bind]
  dsimp only
  rw [indexElements_fields fields [] enough wellFormed ⟨⟨_, [0], rfl, ?_⟩, ?_, ?_⟩ ?_]
  · rfl
  · rw [intBytes_length]
    rfl
  · dsimp only
    omega
  · dsimp only
    omega
  · dsimp only
    omega

end Indexing

end CrossOver.Lua.Bson
