import CrossOver.Lua.Bson.Format

/-!
# `pack_dict` writes the format

Each writer of the encoder emits the bytes that `format` gives for its value,
and `pack_dict` closes a document by filling in the length it reserved.
-/

namespace CrossOver.Lua.Bson

open CrossOver.Lib

theorem appendKey_emits (type : UInt8) (key : Bytes) :
    Emits (appendKey type key) ([type] ++ (key ++ [0])) :=
  (append_emits [type]).seq (append_emits (key ++ [0]))

/-- A key and the payload behind it. -/
theorem element_emits {payload : Bytes} {x : Writer Unit} (type : UInt8) (key : Bytes)
    (emits : Emits x payload) :
    Emits (do appendKey type key; x) (element type key payload) :=
  (appendKey_emits type key).seq emits

theorem appendInteger_emits (key : Bytes) (left : Nat) (i : LuaInteger) :
    Emits (appendInteger key i)
      (element (format left (.integer i)).1 key (format left (.integer i)).2) := by
  simp only [appendInteger, format]
  split_ifs
  · exact element_emits bsonInt32 key (append_emits _)
  · exact element_emits bsonInt64 key (append_emits _)

theorem writeBinary_emits (buffer : Bytes) :
    Emits (writeBinary buffer) (intBytes 4 (buffer.length - 1) ++ buffer) :=
  Emits.patched _ (append_emits buffer) fun _ _ _ => rfl

theorem optionsLength_split (pattern options : Bytes) (noZero : 0 ∉ options) :
    optionsLength (pattern ++ [0] ++ options) = options.length := by
  have reversed : (pattern ++ [0] ++ options).reverse = options.reverse ++ 0 :: pattern.reverse := by
    simp
  have nonzero : ∀ byte ∈ options.reverse, decide (byte ≠ 0) = true := by
    intro byte membership
    rw [decide_eq_true_eq]
    rintro rfl
    exact noZero (List.mem_reverse.mp membership)
  rw [optionsLength, reversed, List.takeWhile_append_of_pos nonzero]
  simp

theorem writeRegex_emits {pattern options : Bytes} (noZero : 0 ∉ options) :
    Emits (writeRegex (pattern ++ [0] ++ options ++ [0]))
      (pattern ++ [0] ++ options ++ [0]) := by
  have split := optionsLength_split pattern options noZero
  have searched : (pattern ++ [0] ++ options ++ [0]).take
      ((pattern ++ [0] ++ options ++ [0]).length - 1) = pattern ++ [0] ++ options := by
    rw [List.length_append, List.length_singleton, Nat.add_sub_cancel, List.take_left]
  have notEmpty : (pattern ++ [0] ++ options ++ [0]).length ≠ 0 := by simp
  have found : options.length ≠ (pattern ++ [0] ++ options).length := by
    simp only [List.length_append, List.length_singleton]
    omega
  have front : (pattern ++ [0] ++ options).take
      ((pattern ++ [0] ++ options).length - options.length - 1) = pattern := by
    have width : (pattern ++ [0] ++ options).length - options.length - 1 = pattern.length := by
      simp only [List.length_append, List.length_singleton]
      omega
    rw [width, List.append_assoc, List.take_left]
  have back : (pattern ++ [0] ++ options).drop
      ((pattern ++ [0] ++ options).length - options.length) = options := by
    have width : (pattern ++ [0] ++ options).length - options.length = (pattern ++ [0]).length := by
      simp only [List.length_append]
      omega
    rw [width, List.drop_left]
  have writer : writeRegex (pattern ++ [0] ++ options ++ [0]) =
      (do writeString pattern; writeString options) := by
    simp only [writeRegex, if_neg notEmpty, searched, split, if_neg found, front, back]
  rw [writer]
  have emits : Emits (do writeString pattern; writeString options)
      ((pattern ++ [0]) ++ (options ++ [0])) := (append_emits _).seq (append_emits _)
  simpa only [List.append_assoc] using emits

theorem writeInt32_emits {bytes : Bytes} (width : bytes.length = 4) :
    Emits (writeInt32 (leValue bytes)) bytes := by
  have bound := leValue_lt_of_length width
  have small : ((leValue bytes : Int) % 256 ^ 4).toNat = leValue bytes := by omega
  have same : intBytes 4 (leValue bytes) = bytes := by
    rw [intBytes, small, ← width, leBytes_leValue]
  have emits := append_emits (intBytes 4 (leValue bytes))
  rw [same] at emits
  rw [writeInt32, same]
  exact emits

theorem appendSpecial_emits (key : Bytes) {str : Bytes} (special : Special str) :
    Emits (appendString key str) (element (stringFormat str).1 key (stringFormat str).2) := by
  cases special with
  | binary data => exact element_emits bsonBinary key (writeBinary_emits (0 :: data))
  | objectid id length =>
      refine element_emits bsonObjectid key ?_
      have short : ¬ id.length ≠ 12 := not_not.mpr length
      change Emits (if id.length ≠ 12 then _ else append id) id
      rw [if_neg short]
      exact append_emits id
  | date d => exact element_emits bsonDate key (append_emits _)
  | timestamp d inc =>
      refine element_emits bsonTimestamp key ?_
      have front : (intBytes 4 inc ++ intBytes 4 d).take 4 = intBytes 4 inc := by
        rw [List.take_left' (intBytes_length 4 inc)]
      have back : (intBytes 4 inc ++ intBytes 4 d).drop 4 = intBytes 4 d := by
        rw [List.drop_left' (intBytes_length 4 inc)]
      change Emits (do
        writeInt32 (leValue ((intBytes 4 inc ++ intBytes 4 d).take 4))
        writeInt32 (leValue ((intBytes 4 inc ++ intBytes 4 d).drop 4)))
        (intBytes 4 inc ++ intBytes 4 d)
      rw [front, back]
      exact (writeInt32_emits (intBytes_length 4 inc)).seq
        (writeInt32_emits (intBytes_length 4 d))
  | regex pattern options noZero noZero' =>
      exact element_emits bsonRegex key (writeRegex_emits noZero')
  | null => exact element_emits bsonNull key Emits.none
  | minkey => exact element_emits bsonMinkey key Emits.none
  | maxkey => exact element_emits bsonMaxkey key Emits.none

theorem appendPlain_emits (key str : Bytes) :
    Emits (appendPlain key str)
      (element bsonString key (intBytes 4 (str.length + 1) ++ (str ++ [0]))) :=
  element_emits bsonString key
    (Emits.patched _ (append_emits (str ++ [0])) fun _ _ _ => rfl)

theorem appendString_plain {str : Bytes} (plain : IsPlain str) (key : Bytes) :
    appendString key str = appendPlain key str := by
  match str with
  | [] => rfl
  | [first] => rw [appendString]; simp
  | first :: second :: rest =>
      have notZero : first ≠ 0 := by
        rintro rfl
        exact plain ⟨by simp, rfl⟩
      rw [appendString]
      intro subt str same
      simp only [List.cons.injEq] at same
      exact notZero same.1

section Tables

variable (rt : Runtime) (nested : Bool → Option (List Entry) → List Entry → Writer Unit)

theorem scalar_emits {value : LuaValue} (scalar : Scalar value) (key : Bytes) (left : Nat) :
    Emits (appendOne rt nested key value)
      (element (format left value).1 key (format left value).2) := by
  cases scalar with
  | boolean value =>
      simp only [format]
      exact element_emits bsonBoolean key (append_emits _)
  | integer value => exact appendInteger_emits key left value
  | number bits =>
      simp only [format]
      exact element_emits bsonReal key (append_emits _)
  | plain str plain =>
      simp only [format, stringFormat_plain plain, appendOne, appendString_plain plain]
      exact appendPlain_emits key str
  | special str special =>
      simp only [format]
      exact appendSpecial_emits key special

theorem packDictData_string (str : Bytes) (value : LuaValue) :
    packDictData rt nested false (.string str) value = appendOne rt nested str value := rfl

theorem packDictData_array (i : LuaInteger) (value : LuaValue) :
    packDictData rt nested true (.integer i) value =
      appendOne rt nested (arrayKey (.integer i)) value := rfl

theorem packPairs_packs {left : Nat} {isarray : Bool} {first : Entry → Option Cut}
    (entries : List Entry)
    (named : ∀ entry ∈ entries, packDictData rt nested isarray entry.1 entry.2 =
      appendOne rt nested (entryName entry.1) entry.2)
    (packs : ∀ entry ∈ entries, Packs (appendOne rt nested (entryName entry.1) entry.2)
      (formatElement left entry) (first entry)) :
    Packs (packPairs rt nested isarray entries) (formatElements left entries)
      (elementsCut left first entries) := by
  induction entries with
  | nil => exact Emits.none
  | cons entry rest inductionHypothesis =>
      have head := packs entry List.mem_cons_self
      rw [← named entry List.mem_cons_self] at head
      rw [elementsCut]
      cases stop : first entry with
      | some cut =>
          rw [stop] at head
          exact Stops.bind head _
      | none =>
          rw [stop] at head
          refine Packs.seq head (inductionHypothesis ?_ ?_)
          · exact fun other membership => named other (List.mem_cons_of_mem _ membership)
          · exact fun other membership => packs other (List.mem_cons_of_mem _ membership)

theorem packBody_emits {isarray : Bool} {entries : List Entry} {elements : Bytes}
    (emits : Emits (packPairs rt nested isarray entries) elements) :
    Emits (packBody rt nested isarray entries) (document elements) := by
  have fills : ∀ (off : Nat) (b : Buffer), b.size = off + 4 + (elements ++ [0]).length →
      (do let size ← writtenSize
          writeLength (size - off) off : Writer Unit) b =
        writeLength (elements.length + 5) off b := by
    intro off b size
    rw [List.length_append, List.length_singleton] at size
    have counted : (b.size : Int) - off = elements.length + 5 := by omega
    change writeLength (b.size - off) off b = _
    rw [counted]
  have body := Emits.patched _ (emits.seq (append_emits [0])) fills
  rw [packBody, document]
  simpa only [bind_assoc, writeByte] using body

theorem packBody_packs {isarray : Bool} {entries : List Entry} {elements : Bytes}
    {stop : Option Cut} (packs : Packs (packPairs rt nested isarray entries) elements stop) :
    Packs (packBody rt nested isarray entries) (document elements)
      (stop.map fun cut => cut.behind 4) := by
  cases stop with
  | none => exact packBody_emits rt nested packs
  | some cut => exact Stops.behindLength fun _ => Stops.bind packs _

theorem appendTable_eq {border : Nat} {entries : List Entry} {isarray : Bool} (key : Bytes)
    (kind : isArray border entries = .ok isarray) :
    appendTable nested key none border entries =
      (do appendKey (if isarray then bsonArray else bsonDocument) key
          nested isarray none entries) := by
  simp only [appendTable, kind]
  cases isarray <;> rfl

/-- A table is written as a document of the kind `append_table` found. -/
theorem appendTable_packs {border : Nat} {entries : List Entry} {isarray : Bool} (key : Bytes)
    {payload : Bytes} {stop : Option Cut} (kind : isArray border entries = .ok isarray)
    (packs : Packs (nested isarray none entries) payload stop) :
    Packs (appendTable nested key none border entries)
      (element (if isarray then bsonArray else bsonDocument) key payload)
      (stop.map fun cut => cut.behind (key.length + 2)) := by
  have width : ([if isarray then bsonArray else bsonDocument] ++ (key ++ [0])).length =
      key.length + 2 := by
    simp only [List.length_append, List.length_singleton]
    omega
  rw [appendTable_eq nested key kind, ← width]
  exact Packs.seq (appendKey_emits _ key) packs

/-- A table that lies too deep fails behind its key. -/
theorem appendKey_stops {Result : Type} (type : UInt8) (key : Bytes) (message : String) :
    Stops (do appendKey type key; luaError message : Writer Result)
      { written := key.length + 2, name := key.length } := by
  have ran : ∀ b, (do appendKey type key; luaError message : Writer Result) b =
      appendKey type key b >>= fun _ => .error (.luaError message) := fun _ => rfl
  have width : ([type] ++ (key ++ [0])).length = key.length + 2 := by
    simp only [List.length_append, List.length_singleton]
    omega
  refine ⟨Nat.succ_pos _, fun b grown fits => ⟨message, ?_⟩, fun b grown full => ?_⟩
  · rw [ran]
    rcases fits with below | ⟨whole, short⟩
    · obtain ⟨next, result, -⟩ := (appendKey_emits type key).below grown (by rwa [width])
      rw [result]
      rfl
    · change b.size + (key.length + 2) = 2 ^ 30 at whole
      change key.length + 1 < 2 ^ 29 at short
      obtain ⟨middle, first, content, kept⟩ := writeByte_edge grown type (by omega)
      have size := size_of_content content
      rw [List.length_singleton] at size
      obtain ⟨next, second, -⟩ := append_edge_fits kept (key ++ [0])
        (by rw [List.length_append, List.length_singleton]; omega)
        (by rw [List.length_append, List.length_singleton]; omega)
      change ((writeByte type b >>= fun read => append (key ++ [0]) read.2) >>= _) = _
      rw [first]
      change (append (key ++ [0]) middle >>= _) = _
      rw [second]
      rfl
  · simp only [Cut.Fits] at full
    rw [ran]
    by_cases whole : b.size + (key.length + 2) = 2 ^ 30
    · have failed := append_edge_overflows grown type (key ++ [0])
        (by rw [List.length_append, List.length_singleton]; omega)
        (by rw [List.length_append, List.length_singleton]; omega)
      change ((do writeByte type; append (key ++ [0]) : Writer Unit) b >>= _) = _
      rw [failed]
      rfl
    · rw [(appendKey_emits type key).overflows b grown (by rw [width]; omega)]
      rfl

end Tables

theorem holdsArray_zero (entries : List Entry) : holdsArray 0 entries = false := rfl

theorem Keyed.isArray {border : Nat} {entries : List Entry}
    (keyed : Keyed (.table none border entries)) :
    isArray border entries = .ok (holdsArray border entries) := by
  cases keyed with
  | scalar scalar => cases scalar
  | table keys distinct values => rfl
  | array kind keys values => rw [holdsArray, kind]

theorem Keyed.values {border : Nat} {entries : List Entry}
    (keyed : Keyed (.table none border entries)) : ∀ entry ∈ entries, Keyed entry.2 := by
  cases keyed with
  | scalar scalar => cases scalar
  | table keys distinct values => exact values
  | array kind keys values => exact values

section Levels

variable (rt : Runtime)

theorem Keyed.named (nested : Bool → Option (List Entry) → List Entry → Writer Unit) {border : Nat}
    {entries : List Entry} (keyed : Keyed (.table none border entries)) :
    ∀ entry ∈ entries, packDictData rt nested (holdsArray border entries) entry.1 entry.2 =
      appendOne rt nested (entryName entry.1) entry.2 := by
  intro entry membership
  cases keyed with
  | scalar scalar => cases scalar
  | table keys distinct values =>
      obtain ⟨str, key⟩ := keys entry membership
      rw [holdsArray_zero, key]
      exact packDictData_string rt nested str entry.2
  | array kind keys values =>
      obtain ⟨i, -, key⟩ := Encodable.array_keys keys entry membership
      rw [holdsArray, kind, key]
      exact packDictData_array rt nested _ entry.2

/-- A document is written once the values in it are. -/
theorem packDict_packs {left border : Nat} {entries : List Entry}
    (values : ∀ value, Keyed value → ∀ key, Packs (appendOne rt (packDict rt left) key value)
      (element (format left value).1 key (format left value).2) (elementCut left key value))
    (keyed : Keyed (.table none border entries)) :
    Packs (packDict rt (left + 1) (holdsArray border entries) none entries)
      (document (formatElements left entries))
      ((documentCut left entries).map fun cut => cut.behind 4) :=
  packBody_packs rt _ (packPairs_packs rt _ entries (keyed.named rt _)
    fun entry membership => values entry.2 (keyed.values entry membership) _)

theorem Keyed.scalar_or_table {value : LuaValue} (keyed : Keyed value) :
    Scalar value ∨ ∃ border entries, value = .table none border entries := by
  cases keyed with
  | scalar scalar => exact .inl scalar
  | table keys distinct values => exact .inr ⟨_, _, rfl⟩
  | array kind keys values => exact .inr ⟨_, _, rfl⟩

theorem scalar_whole {value : LuaValue} (scalar : Scalar value) (left : Nat) (key : Bytes) :
    elementCut left key value = none := by
  cases left <;> cases scalar <;> rfl

/-- Every value is written in its format, up to a table that lies too deep. -/
theorem appendOne_packs (left : Nat) (value : LuaValue) (keyed : Keyed value) (key : Bytes) :
    Packs (appendOne rt (packDict rt left) key value)
      (element (format left value).1 key (format left value).2) (elementCut left key value) := by
  induction left generalizing value key with
  | zero =>
      rcases keyed.scalar_or_table with scalar | ⟨border, entries, rfl⟩
      · rw [scalar_whole scalar]
        exact scalar_emits rt _ scalar key 0
      · change Stops (appendTable (packDict rt 0) key none border entries) _
        rw [appendTable_eq _ key keyed.isArray]
        exact appendKey_stops _ key _
  | succ left inductionHypothesis =>
      rcases keyed.scalar_or_table with scalar | ⟨border, entries, rfl⟩
      · rw [scalar_whole scalar]
        exact scalar_emits rt _ scalar key _
      · have body := packDict_packs rt inductionHypothesis keyed
        have packs := appendTable_packs (packDict rt (left + 1)) key keyed.isArray body
        simp only [Option.map_map, Function.comp_def, Cut.behind_behind] at packs
        exact packs

/-- The whole document is there where its last byte still fits. -/
theorem packBody_closed {isarray : Bool} {entries : List Entry} {elements : Bytes}
    {nested : Bool → Option (List Entry) → List Entry → Writer Unit} {b : Buffer}
    (emits : Emits (packPairs rt nested isarray entries) elements) (grown : Grown b)
    (bound : b.size + (document elements).length ≤ 2 ^ 30) :
    ∃ next, packBody rt nested isarray entries b = .ok ((), next) ∧
      next.content = b.content ++ document elements := by
  rw [document_length] at bound
  obtain ⟨opened, openResult, openContent, openGrown⟩ :=
    (append_emits [0, 0, 0, 0]).below grown (by simp only [List.length_cons, List.length_nil]; omega)
  have openSize := size_of_content openContent
  simp only [List.length_cons, List.length_nil] at openSize
  obtain ⟨closed, result, content, -⟩ := emits.closed openGrown 0 (by omega)
  have size := size_of_content content
  rw [List.length_append, List.length_singleton] at size
  have counted : (closed.size : Int) - b.size = elements.length + 5 := by omega
  obtain ⟨next, patchResult, patchContent⟩ :=
    writeLength_spec closed (elements.length + 5) b.content [0, 0, 0, 0] (elements ++ [0]) rfl
      (by rw [content, openContent])
  rw [Buffer.content_length] at patchResult
  refine ⟨next, ?_, by rw [patchContent, document, List.append_assoc]⟩
  rw [packBody, reserveLength_ran]
  change (append [0, 0, 0, 0] b >>= fun start => packPairs rt nested isarray entries start.2 >>=
    fun read => writeByte 0 read.2 >>= fun after =>
      writeLength (after.2.size - b.size) b.size after.2) = _
  rw [openResult]
  change (packPairs rt nested isarray entries opened >>= fun read => writeByte 0 read.2 >>= _) = _
  rw [← bind_assoc]
  change ((do packPairs rt nested isarray entries; writeByte 0 : Writer Unit) opened >>= _) = _
  rw [result]
  change writeLength (closed.size - b.size) b.size closed = _
  rw [counted]
  exact patchResult

section Top

variable {entries : List Entry}

theorem packPairs_top (keyed : Keyed (.table none 0 entries)) :
    Packs (packPairs rt (packDict rt maxDepth) false entries) (formatElements maxDepth entries)
      (documentCut maxDepth entries) :=
  packPairs_packs rt _ entries (keyed.named rt _) fun entry membership =>
    appendOne_packs rt maxDepth entry.2 (keyed.values entry membership) _

theorem lencode_ran : lencode rt (.table none 0 entries) =
    packBody rt (packDict rt maxDepth) false entries Buffer.create >>= fun read =>
      pure read.2.content := rfl

/-- `bson.encode` returns the document where no table lies too deep and the document
fits into the largest block. -/
theorem lencode_whole (keyed : Keyed (.table none 0 entries))
    (whole : documentCut maxDepth entries = none)
    (bound : (document (formatElements maxDepth entries)).length ≤ 2 ^ 30) :
    lencode rt (.table none 0 entries) = .ok (document (formatElements maxDepth entries)) := by
  have emits := packPairs_top rt keyed
  rw [whole] at emits
  obtain ⟨b, result, content⟩ := packBody_closed rt emits create_grown (by
    change 0 + _ ≤ _
    omega)
  rw [Buffer.create_content, List.nil_append] at content
  rw [lencode_ran, result, ← content]
  rfl

theorem lencode_overflows (keyed : Keyed (.table none 0 entries))
    (whole : documentCut maxDepth entries = none)
    (large : 2 ^ 30 < (document (formatElements maxDepth entries)).length) :
    lencode rt (.table none 0 entries) = .error .overflow := by
  have emits := packPairs_top rt keyed
  rw [whole] at emits
  rw [lencode_ran, (packBody_emits rt _ emits).overflows _ create_grown (by
    change _ < 0 + _
    omega)]
  rfl

/-- A table that lies too deep ends the encoding in an error, unless the block is full
before it is reached. -/
theorem lencode_stops (keyed : Keyed (.table none 0 entries)) {cut : Cut}
    (stops : documentCut maxDepth entries = some cut) :
    (cut.Fits 4 → ∃ message, lencode rt (.table none 0 entries) = .error (.luaError message)) ∧
      (¬ cut.Fits 4 → lencode rt (.table none 0 entries) = .error .overflow) := by
  have packs := packPairs_top rt keyed
  rw [stops] at packs
  have body : Stops (packBody rt (packDict rt maxDepth) false entries) (cut.behind 4) :=
    packBody_packs rt _ packs
  have start : (cut.behind 4).Fits Buffer.create.size ↔ cut.Fits 4 := cut.fits_behind 4 0
  rw [lencode_ran]
  constructor
  · intro fits
    obtain ⟨message, failed⟩ := body.raises _ create_grown (start.mpr fits)
    rw [failed]
    exact ⟨message, rfl⟩
  · intro full
    rw [body.overflows _ create_grown fun fits => full (start.mp fits)]
    rfl

end Top

variable {arrays : Prop}

theorem Encodable.keyed {left : Nat} {value : LuaValue} (encodable : Encodable arrays left value) :
    Keyed value := by
  induction encodable with
  | scalar scalar => exact .scalar scalar
  | table keys distinct values inductionHypothesis =>
      refine .table (fun entry membership => ?_) distinct inductionHypothesis
      obtain ⟨str, key, -⟩ := keys entry membership
      exact ⟨str, key⟩
  | array allowed kind keys values inductionHypothesis => exact .array kind keys inductionHypothesis

/-- No table in an encodable value lies too deep. -/
theorem Encodable.whole {left : Nat} {value : LuaValue} (encodable : Encodable arrays left value)
    (key : Bytes) : elementCut left key value = none := by
  induction encodable generalizing key with
  | scalar scalar => exact scalar_whole scalar _ key
  | table keys distinct values inductionHypothesis =>
      rw [elementCut_table, documentCut, elementsCut_none.mpr fun entry membership =>
        inductionHypothesis entry membership _]
      rfl
  | array allowed kind keys values inductionHypothesis =>
      rw [elementCut_table, documentCut, elementsCut_none.mpr fun entry membership =>
        inductionHypothesis entry membership _]
      rfl

/-- `bson.encode` returns the document of an encodable table below `2 ^ 30` bytes. -/
theorem lencode_format {entries : List Entry}
    (encodable : Encodable arrays (maxDepth + 1) (.table none 0 entries))
    (small : (document (formatElements maxDepth entries)).length < 2 ^ 30) :
    lencode rt (.table none 0 entries) = .ok (document (formatElements maxDepth entries)) := by
  have whole := encodable.whole []
  rw [elementCut_table, Option.map_eq_none_iff] at whole
  exact lencode_whole rt encodable.keyed whole (Nat.le_of_lt small)

end Levels

end CrossOver.Lua.Bson
