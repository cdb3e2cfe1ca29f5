import CrossOver.Lua.Bson.Decode
import CrossOver.Lua.Bson.Format
import CrossOver.Lua.Decoding

/-!
# `unpack_dict` reads the format

`Decodes` says that a decoder turns given bytes into a value and stops right
behind them.  `returned` is the value that comes back for an encodable one, for
documents and for arrays alike.
-/

namespace CrossOver.Lua.Bson

open CrossOver.Lib

def Reader.skip (r : Reader) (count : Nat) : Reader :=
  { r with ptr := r.ptr + count, size := r.size - count }

structure Reads (r : Reader) (bytes : Bytes) : Prop where
  held : ∃ before after, r.memory = before ++ (bytes ++ after) ∧ r.ptr = before.length
  enough : (bytes.length : Int) ≤ r.size
  narrow : r.size < 2 ^ 31

def Decodes {Value : Type} (decoder : Decoder Value) (bytes : Bytes) (value : Value) : Prop :=
  ∀ r, Reads r bytes → decoder r = .ok (value, r.skip bytes.length)

@[simp]
theorem Reader.skip_zero (r : Reader) : r.skip 0 = r := by
  simp [Reader.skip]

theorem Reader.skip_skip (r : Reader) (first second : Nat) :
    (r.skip first).skip second = r.skip (first + second) := by
  simp only [Reader.skip, Reader.mk.injEq, true_and]
  push_cast
  omega

theorem Reads.front {r : Reader} {front back : Bytes} (reads : Reads r (front ++ back)) :
    Reads r front := by
  obtain ⟨⟨before, after, memory, position⟩, enough, narrow⟩ := reads
  rw [List.length_append] at enough
  exact ⟨⟨before, back ++ after, by rw [memory, List.append_assoc], position⟩, by omega, narrow⟩

theorem Reads.back {r : Reader} {front back : Bytes} (reads : Reads r (front ++ back)) :
    Reads (r.skip front.length) back := by
  obtain ⟨⟨before, after, memory, position⟩, enough, narrow⟩ := reads
  rw [List.length_append] at enough
  refine ⟨⟨before ++ front, after, ?_, ?_⟩, ?_, ?_⟩
  · change r.memory = _
    simp only [memory, List.append_assoc]
  · change r.ptr + front.length = _
    rw [List.length_append]
    omega
  · change _ ≤ r.size - front.length
    omega
  · change r.size - front.length < 2 ^ 31
    omega

section Rules

variable {First Second : Type}

theorem Decodes.pure (value : First) : Decodes (pure value) [] value := by
  intro r reads
  rw [List.length_nil, Reader.skip_zero]
  rfl

theorem Decodes.bind {first : Decoder First} {second : First → Decoder Second}
    {front back : Bytes} {a : First} {b : Second} (decodesFirst : Decodes first front a)
    (decodesSecond : Decodes (second a) back b) :
    Decodes (first >>= second) (front ++ back) b := by
  intro r reads
  have firstResult := decodesFirst r reads.front
  have secondResult := decodesSecond _ reads.back
  change (first r >>= fun read => second read.1 read.2) = _
  rw [firstResult, List.length_append, ← Reader.skip_skip]
  exact secondResult

theorem Decodes.map {first : Decoder First} {bytes : Bytes} {a : First} (f : First → Second)
    (decodes : Decodes first bytes a) :
    Decodes (do let read ← first; return f read) bytes (f a) := by
  have both : Decodes (first >>= fun read => Pure.pure (f read)) (bytes ++ []) (f a) :=
    decodes.bind (Decodes.pure (f a))
  rwa [List.append_nil] at both

end Rules

theorem checkReader_ok {r : Reader} {sz : Int} (enough : sz ≤ r.size) :
    checkReader sz r = .ok ((), r) := by
  have notLess : ¬ r.size < sz := by omega
  change (if r.size < sz then readError _ else pure ()) r = _
  rw [if_neg notLess]
  rfl

theorem advance_ok {r : Reader} {count : Nat} (enough : (count : Int) ≤ r.size)
    (narrow : r.size < 2 ^ 31) : advance count r = .ok ((), r.skip count) := by
  have inRange : -2 ^ 31 ≤ r.size - count ∧ r.size - count < 2 ^ 31 := by omega
  change (intExpr (r.size - count) r >>= fun read => _) = _
  rw [intExpr, if_pos inRange]
  rfl

/-- The bytes a reader holds, looked at from any reader of the same memory. -/
theorem bytesAt_ok {r s : Reader} {bytes : Bytes} (reads : Reads r bytes)
    (same : s.memory = r.memory) (count : Nat) (short : count ≤ bytes.length) :
    bytesAt r.ptr count s = .ok (bytes.take count, s) := by
  obtain ⟨before, after, memory, position⟩ := reads.held
  have inside : 0 ≤ r.ptr ∧ r.ptr + count ≤ s.memory.length := by
    simp only [same, memory, List.length_append]
    omega
  change (if 0 ≤ r.ptr ∧ r.ptr + count ≤ s.memory.length then _ else _ : Decoder Bytes) s = _
  rw [if_pos inside]
  change Except.ok ((s.memory.drop r.ptr.toNat).take count, s) = _
  rw [same, memory, position, Int.toNat_natCast, List.drop_left,
    List.take_append_of_le_length short]

theorem readWord_decodes (bytes : Bytes) :
    Decodes (readWord bytes.length) bytes (leValue bytes) := by
  intro r reads
  change (checkReader bytes.length r >>= fun checked =>
    bytesAt checked.2.ptr bytes.length checked.2 >>= fun read =>
      advance bytes.length read.2 >>= fun moved => Except.ok (leValue read.1, moved.2)) = _
  rw [checkReader_ok reads.enough]
  change (bytesAt r.ptr bytes.length r >>= fun read =>
      advance bytes.length read.2 >>= fun moved => Except.ok (leValue read.1, moved.2)) = _
  rw [bytesAt_ok reads rfl _ (Nat.le_refl _), List.take_length]
  change (advance bytes.length r >>= fun moved => Except.ok (leValue bytes, moved.2)) = _
  rw [advance_ok reads.enough reads.narrow]
  rfl

theorem readByte_decodes (byte : UInt8) : Decodes readByte [byte] byte := by
  have decodes := (readWord_decodes [byte]).map UInt8.ofNat
  have value : UInt8.ofNat (leValue [byte]) = byte := by simp [leValue]
  rw [value] at decodes
  exact decodes

theorem leValue_intBytes (width : Nat) (value : Int) :
    leValue (intBytes width value) = (value % 256 ^ width).toNat := by
  have modulus : (0 : Int) < 256 ^ width := Int.pow_pos (by decide)
  have upper := Int.emod_lt_of_pos value modulus
  have lower := Int.emod_nonneg value (ne_of_gt modulus)
  apply leValue_leBytes
  zify
  rw [Int.toNat_of_nonneg lower]
  exact upper

theorem readSigned_decodes (width : Nat) (value : Int)
    (lower : -((256 ^ width : Nat) : Int) ≤ value * 2)
    (upper : value * 2 < ((256 ^ width : Nat) : Int)) :
    Decodes (do let read ← readWord width; return signed width read) (intBytes width value)
      value := by
  have decodes := (readWord_decodes (intBytes width value)).map (signed width)
  rw [intBytes_length, leValue_intBytes, signed_emod value width lower upper] at decodes
  exact decodes

theorem readInt32_decodes (value : Int) (lower : -2 ^ 31 ≤ value) (upper : value < 2 ^ 31) :
    Decodes readInt32 (intBytes 4 value) value :=
  readSigned_decodes 4 value (by omega) (by omega)

theorem readInt64_decodes (value : Int) (lower : -2 ^ 63 ≤ value) (upper : value < 2 ^ 63) :
    Decodes readInt64 (intBytes 8 value) value :=
  readSigned_decodes 8 value (by omega) (by omega)

theorem readDouble_decodes (bits : UInt64) :
    Decodes readDouble (leBytes 8 bits.toNat) bits := by
  have decodes := (readWord_decodes (leBytes 8 bits.toNat)).map UInt64.ofNat
  rw [leBytes_length, leValue_leBytes bits.toNat_lt, UInt64.ofNat_toNat] at decodes
  exact decodes

theorem readBytes_ok {r : Reader} {bytes : Bytes} (reads : Reads r bytes) :
    readBytes bytes.length r = .ok (r.ptr, r.skip bytes.length) := by
  change (checkReader bytes.length r >>= fun checked =>
    advance bytes.length checked.2 >>= fun moved => Except.ok (r.ptr, moved.2)) = _
  rw [checkReader_ok reads.enough]
  change (advance bytes.length r >>= fun moved => Except.ok (r.ptr, moved.2)) = _
  rw [advance_ok reads.enough reads.narrow]
  rfl

theorem readBytes_decodes {Value : Type} {look : Int → Decoder Value} {bytes : Bytes}
    {value : Value}
    (looks : ∀ r s, Reads r bytes → s.memory = r.memory → look r.ptr s = .ok (value, s)) :
    Decodes (do let ptr ← readBytes bytes.length; look ptr) bytes value := by
  intro r reads
  change (readBytes bytes.length r >>= fun read => look read.1 read.2) = _
  rw [readBytes_ok reads]
  exact looks r _ reads rfl

theorem scanCstring_eq (str after : Bytes) (noZero : 0 ∉ str) (size : Int)
    (enough : (str.length : Int) < size) : scanCstring (str ++ 0 :: after) size = .ok str := by
  induction str generalizing size with
  | nil =>
      have positive : size ≠ 0 := by
        simp only [List.length_nil] at enough
        omega
      simp only [List.nil_append, scanCstring, if_neg positive, if_true]
  | cons byte rest inductionHypothesis =>
      rw [List.length_cons] at enough
      push_cast at enough
      have positive : size ≠ 0 := by omega
      have nonzero : byte ≠ 0 := fun zero => noZero (zero ▸ List.mem_cons_self)
      have tail := inductionHypothesis (fun membership =>
        noZero (List.mem_cons_of_mem _ membership)) (size - 1) (by omega)
      simp only [List.cons_append, scanCstring, if_neg positive, if_neg nonzero, tail]
      rfl

theorem readCstring_decodes {str : Bytes} (noZero : 0 ∉ str) :
    Decodes readCstring (str ++ [0]) str := by
  intro r reads
  obtain ⟨before, after, memory, position⟩ := reads.held
  have enough := reads.enough
  have narrow := reads.narrow
  rw [List.length_append, List.length_singleton] at enough ⊢
  have inside : ¬ (r.size ≠ 0 ∧ r.ptr < 0) := by omega
  have next : r.memory.drop r.ptr.toNat = str ++ 0 :: after := by
    rw [memory, position, Int.toNat_natCast, List.drop_left]
    simp
  have scanned := scanCstring_eq str after noZero r.size (by push_cast at enough; omega)
  have moved : advance (str.length + 1) r = .ok ((), r.skip (str.length + 1)) := by
    exact_mod_cast advance_ok enough narrow
  change (if r.size ≠ 0 ∧ r.ptr < 0 then throw .outOfBounds else (do
    let str ← (scanCstring (r.memory.drop r.ptr.toNat) r.size : Except Failure Bytes)
    advance (str.length + 1)
    return str) : Decoder Bytes) r = _
  rw [if_neg inside, next, scanned]
  change (advance (str.length + 1) r >>= fun moved => Except.ok (str, moved.2)) = _
  rw [moved]
  rfl

section Values

variable (nested : Bool → Decoder LuaValue)

theorem readPlain_decodes {str : Bytes} (short : str.length + 1 < 2 ^ 31) :
    Decodes readString (intBytes 4 (str.length + 1) ++ (str ++ [0])) (.string str) := by
  refine Decodes.bind (readInt32_decodes _ (by omega) (by omega)) ?_
  have positive : ¬ ((str.length : Int) + 1 ≤ 0) := by omega
  have whole : ((str.length : Int) + 1) = ((str ++ [0]).length : Nat) := by simp
  have kept : (((str ++ [0]).length : Nat) - 1 : Int).toNat = str.length := by simp
  rw [if_neg positive, whole, kept]
  refine readBytes_decodes ?_
  intro r s reads same
  have looked := bytesAt_ok reads same str.length (by simp)
  rw [List.take_left] at looked
  change (bytesAt r.ptr str.length s >>= fun read =>
    Except.ok (LuaValue.string read.1, read.2)) = _
  rw [looked]
  rfl

theorem addlstring_ok {r s : Reader} {bytes : Bytes} (held : Nat) (reads : Reads r bytes)
    (same : s.memory = r.memory) : addlstring held r.ptr bytes.length s = .ok (bytes, s) := by
  have positive : (0 : Int) ≤ bytes.length := by omega
  simp only [addlstring, if_pos positive, Int.toNat_natCast]
  rw [bytesAt_ok reads same _ (Nat.le_refl _), List.take_length]

theorem readBinary_decodes (subtype : UInt8) {data : Bytes} (short : data.length < 2 ^ 31) :
    Decodes readBinary (intBytes 4 data.length ++ ([subtype] ++ data))
      (.string ([0, bsonBinary, subtype] ++ data)) := by
  refine Decodes.bind (readInt32_decodes _ (by omega) (by omega)) ?_
  refine Decodes.bind (readByte_decodes subtype) ?_
  refine readBytes_decodes ?_
  intro r s reads same
  change (addlstring 3 r.ptr data.length s >>= fun read =>
    Except.ok (LuaValue.string ([0, bsonBinary, subtype] ++ read.1), read.2)) = _
  rw [addlstring_ok 3 reads same]
  rfl

theorem readObjectid_decodes {id : Bytes} (length : id.length = 12) :
    Decodes readObjectid id (.string ([0, bsonObjectid] ++ id)) := by
  have twelve : (12 : Int) = (id.length : Nat) := by omega
  rw [readObjectid, twelve]
  refine readBytes_decodes ?_
  intro r s reads same
  change (addlstring 2 r.ptr id.length s >>= fun read =>
    Except.ok (LuaValue.string ([0, bsonObjectid] ++ read.1), read.2)) = _
  rw [addlstring_ok 2 reads same]
  rfl

/-- The seconds survive their conversion to milliseconds. -/
theorem readDate_decodes {bytes : Bytes} (width : bytes.length = 4) :
    Decodes readDate (intBytes 8 (leValue bytes * 1000)) (.string ([0, bsonDate] ++ bytes)) := by
  have bound := leValue_lt_of_length width
  have seconds : ((leValue bytes : Int) * 1000).tdiv 1000 = leValue bytes :=
    Int.mul_tdiv_cancel _ (by decide)
  have small : ((leValue bytes : Int) % 256 ^ 4).toNat = leValue bytes := by omega
  have same : intBytes 4 (leValue bytes) = bytes := by
    rw [intBytes, small, ← width, leBytes_leValue]
  have decodes := (readInt64_decodes (leValue bytes * 1000) (by omega) (by omega)).map
    fun date => LuaValue.string ([0, bsonDate] ++ intBytes 4 (date.tdiv 1000))
  rw [seconds, same] at decodes
  exact decodes

theorem readRegex_decodes {pattern options : Bytes} (noZero : 0 ∉ pattern) (noZero' : 0 ∉ options) :
    Decodes readRegex (pattern ++ [0] ++ options ++ [0])
      (.string ([0, bsonRegex] ++ pattern ++ [0] ++ options ++ [0])) := by
  have decodes : Decodes readRegex ((pattern ++ [0]) ++ (options ++ [0])) _ :=
    (readCstring_decodes noZero).bind ((readCstring_decodes noZero').map _)
  rw [← List.append_assoc] at decodes
  exact decodes

theorem intBytes_signed {bytes : Bytes} (width : bytes.length = 4) :
    intBytes 4 (signed 4 (leValue bytes)) = bytes := by
  have bound := leValue_lt_of_length width
  have small : ((leValue bytes : Int).bmod (256 ^ 4) % 256 ^ 4).toNat = leValue bytes := by
    simp only [Int.bmod]
    split <;> omega
  have value : ((signed 4 (leValue bytes)) % 256 ^ 4).toNat = leValue bytes := small
  rw [intBytes, value, ← width, leBytes_leValue]

theorem readTimestamp_decodes {inc ts : Bytes} (incWidth : inc.length = 4)
    (tsWidth : ts.length = 4) :
    Decodes readTimestamp (inc ++ ts) (.string ([0, bsonTimestamp] ++ inc ++ ts)) := by
  have first := (readWord_decodes inc).map (signed 4)
  have second := (readWord_decodes ts).map (signed 4)
  rw [incWidth] at first
  rw [tsWidth] at second
  have decodes : Decodes readTimestamp (inc ++ ts) (.string ([0, bsonTimestamp] ++
      intBytes 4 (signed 4 (leValue inc)) ++ intBytes 4 (signed 4 (leValue ts)))) :=
    first.bind (second.map _)
  rw [intBytes_signed incWidth, intBytes_signed tsWidth] at decodes
  exact decodes

theorem special_decodes {str : Bytes} (special : Special str)
    (short : (stringFormat str).2.length < 2 ^ 31) :
    Decodes (readValue nested (stringFormat str).1) (stringFormat str).2 (.string str) := by
  cases special with
  | binary data =>
      have length : (((0 :: data).length : Nat) : Int) - 1 = data.length := by
        simp only [List.length_cons]
        omega
      change (intBytes 4 ((0 :: data).length - 1) ++ (0 :: data)).length < 2 ^ 31 at short
      change Decodes readBinary (intBytes 4 ((0 :: data).length - 1) ++ (0 :: data)) _
      simp only [List.length_append, List.length_cons] at short
      rw [length]
      exact readBinary_decodes 0 (by omega)
  | objectid id length => exact readObjectid_decodes length
  | date d => exact readDate_decodes (intBytes_length 4 d)
  | timestamp d inc => exact readTimestamp_decodes (intBytes_length 4 inc) (intBytes_length 4 d)
  | regex pattern options noZero noZero' => exact readRegex_decodes noZero noZero'
  | null => exact Decodes.pure _
  | minkey => exact Decodes.pure _
  | maxkey => exact Decodes.pure _

theorem integer_decodes (i : LuaInteger) (left : Nat) :
    Decodes (readValue nested (format left (.integer i)).1) (format left (.integer i)).2
      (.integer i) := by
  have lower := i.lower
  have upper := i.upper
  simp only [format]
  split_ifs with narrow
  · simp only [is32bit, Bool.and_eq_true, decide_eq_true_eq] at narrow
    have decodes := (readInt32_decodes i.value (by omega) (by omega)).map
      fun value => LuaValue.integer (LuaInteger.ofInt value)
    rw [LuaInteger.ofInt_value] at decodes
    exact decodes
  · have decodes := (readInt64_decodes i.value lower upper).map
      fun value => LuaValue.integer (LuaInteger.ofInt value)
    rw [LuaInteger.ofInt_value] at decodes
    exact decodes

theorem boolean_decodes (value : Bool) :
    Decodes (readValue nested bsonBoolean) [if value then 1 else 0] (.boolean value) := by
  have decodes := (readByte_decodes (if value then 1 else 0)).map
    fun byte => LuaValue.boolean (byte != 0)
  cases value <;> exact decodes

theorem scalar_decodes {value : LuaValue} (scalar : Scalar value) (left : Nat)
    (short : (format left value).2.length < 2 ^ 31) :
    Decodes (readValue nested (format left value).1) (format left value).2 value := by
  cases scalar with
  | boolean value =>
      simp only [format]
      exact boolean_decodes nested value
  | integer value => exact integer_decodes nested value left
  | number bits =>
      simp only [format]
      exact (readDouble_decodes bits).map LuaValue.number
  | plain str plain =>
      simp only [format, stringFormat_plain plain, List.length_append] at short ⊢
      exact readPlain_decodes (by simp only [List.length_cons, List.length_nil] at short; omega)
  | special str special =>
      simp only [format] at short ⊢
      exact special_decodes nested special short

end Values

section Tables

/-- The entries of a table that the decoder builds from elements, in their order. -/
def storeElements (decoded : LuaValue → LuaValue) (array : Bool) (entries stored : List Entry) :
    List Entry :=
  entries.foldl (fun stored entry =>
    setSlot stored (elementKey array (entryName entry.1)) (decoded entry.2)) stored

def returned (rt : Runtime) : Nat → LuaValue → LuaValue
  | left + 1, .table _ border entries =>
      let stored := storeElements (returned rt left) (holdsArray border entries) entries []
      .table none (rt.rawlen stored) stored
  | _, value => value

theorem returned_scalar (rt : Runtime) (left : Nat) {value : LuaValue} (scalar : Scalar value) :
    returned rt left value = value := by
  cases left <;> cases scalar <;> rfl

variable (rt : Runtime) (nested : Bool → Decoder LuaValue)

/-- The entries of a table that the decoder builds from elements that it has read. -/
def storeFields (array : Bool) (fields : List (Field × LuaValue)) (stored : List Entry) :
    List Entry :=
  fields.foldl (fun stored field => setSlot stored (elementKey array field.1.key) field.2) stored

theorem readElement_decodes {field : Field} {value : LuaValue} (array : Bool)
    (name : 0 ∉ field.key) (decodes : Decodes (readValue nested field.type) field.payload value) :
    Decodes (readElement nested array) field.bytes (elementKey array field.key, value) := by
  rw [Field.bytes, element, List.append_assoc]
  exact (readByte_decodes _).bind ((readCstring_decodes name).bind (decodes.map _))

theorem field_bytes_pos (field : Field) : 0 < field.bytes.length := by
  simp [Field.bytes, element]

theorem readElements_fields {array : Bool} (fields : List (Field × LuaValue))
    (stored : List Entry) (fuel : Nat) (enough : fields.length < fuel)
    (names : ∀ field ∈ fields, 0 ∉ field.1.key)
    (decodes : ∀ field ∈ fields,
      Decodes (readValue nested field.1.type) field.1.payload field.2)
    (r : Reader) (reads : Reads r (fieldsBytes (fields.map Prod.fst)))
    (whole : r.size = (fieldsBytes (fields.map Prod.fst)).length) :
    readElements nested array fuel stored r = .ok (storeFields array fields stored,
      r.skip (fieldsBytes (fields.map Prod.fst)).length) := by
  induction fields generalizing stored fuel r with
  | nil =>
      obtain ⟨fuel, rfl⟩ := Nat.exists_eq_add_one_of_ne_zero (Nat.ne_of_gt enough)
      have empty : r.size = 0 := whole
      change (if r.size = 0 then _ else _ : Decoder (List Entry)) r = _
      rw [if_pos empty]
      change Except.ok (stored, r) = Except.ok (stored, r.skip 0)
      rw [Reader.skip_zero]
  | cons field rest inductionHypothesis =>
      rw [List.length_cons] at enough
      obtain ⟨fuel, rfl⟩ :=
        Nat.exists_eq_add_one_of_ne_zero (Nat.ne_of_gt (Nat.zero_lt_of_lt enough))
      have split : fieldsBytes ((field :: rest).map Prod.fst) =
          field.1.bytes ++ fieldsBytes (rest.map Prod.fst) := rfl
      rw [split] at reads whole ⊢
      have positive := field_bytes_pos field.1
      rw [List.length_append] at whole
      have notEmpty : r.size ≠ 0 := by omega
      have first := readElement_decodes nested array (names field List.mem_cons_self)
        (decodes field List.mem_cons_self) r reads.front
      have others := inductionHypothesis
        (setSlot stored (elementKey array field.1.key) field.2) fuel (by omega)
        (fun other membership => names other (List.mem_cons_of_mem _ membership))
        (fun other membership => decodes other (List.mem_cons_of_mem _ membership))
        _ reads.back (by
          change r.size - _ = _
          omega)
      change (if r.size = 0 then _ else _ : Decoder (List Entry)) r = _
      rw [if_neg notEmpty]
      change (readElement nested array r >>= fun read =>
        readElements nested array fuel (setSlot stored read.1.1 read.1.2) read.2) = _
      rw [first, List.length_append, ← Reader.skip_skip]
      exact others

def entryField (left : Nat) (entry : Entry) : Field where
  type := (format left entry.2).1
  key := entryName entry.1
  payload := (format left entry.2).2

theorem fieldsBytes_entries (left : Nat) (entries : List Entry) :
    fieldsBytes (entries.map (entryField left)) = formatElements left entries := by
  rw [fieldsBytes, List.flatMap_map]
  rfl

theorem readElements_eq {left : Nat} {array : Bool} (decoded : LuaValue → LuaValue)
    (entries stored : List Entry) (fuel : Nat) (enough : entries.length < fuel)
    (names : ∀ entry ∈ entries, 0 ∉ entryName entry.1)
    (decodes : ∀ entry ∈ entries, Decodes (readValue nested (format left entry.2).1)
      (format left entry.2).2 (decoded entry.2))
    (r : Reader) (reads : Reads r (formatElements left entries))
    (whole : r.size = (formatElements left entries).length) :
    readElements nested array fuel stored r =
      .ok (storeElements decoded array entries stored,
        r.skip (formatElements left entries).length) := by
  let read := entries.map fun entry => (entryField left entry, decoded entry.2)
  have bytes : fieldsBytes (read.map Prod.fst) = formatElements left entries := by
    rw [← fieldsBytes_entries, List.map_map]
    rfl
  have stores : storeFields array read stored = storeElements decoded array entries stored :=
    List.foldl_map
  rw [← bytes] at reads whole ⊢
  rw [← stores]
  refine readElements_fields nested read stored fuel (by rwa [List.length_map]) ?_ ?_ r reads whole
  · intro field membership
    obtain ⟨entry, entryIn, rfl⟩ := List.mem_map.mp membership
    exact names entry entryIn
  · intro field membership
    obtain ⟨entry, entryIn, rfl⟩ := List.mem_map.mp membership
    exact decodes entry entryIn

/-- The part of `unpack_dict` behind the length. -/
def unpackBody (fuel : Nat) (array : Bool) (sz : Int) : Decoder LuaValue := do
  let inner ← intExpr (sz - 5)
  let ptr ← readBytes inner
  let last ← readByte
  if last ≠ 0 then readError "Invalid document end"
  else do
    let br ← get
    let (entries, _) ← (readElements (unpackDict rt fuel) array fuel []
      { br with ptr := ptr, size := inner } : Except Failure (List Entry × Reader))
    return .table none (rt.rawlen entries) entries

theorem unpackDict_body (fuel : Nat) (array : Bool) :
    unpackDict rt (fuel + 1) array = readInt32 >>= unpackBody rt fuel array := rfl

theorem unpackBody_decodes {elements : Bytes} {stored : List Entry} {fuel : Nat} {array : Bool}
    (short : elements.length + 5 < 2 ^ 31)
    (parsed : ∀ r, Reads r elements → r.size = elements.length →
      readElements (unpackDict rt fuel) array fuel [] r = .ok (stored, r.skip elements.length)) :
    Decodes (unpackBody rt fuel array (elements.length + 5)) (elements ++ [0])
      (.table none (rt.rawlen stored) stored) := by
  intro r reads
  have inner : (elements.length : Int) + 5 - 5 = elements.length := by omega
  have inRange : -2 ^ 31 ≤ (elements.length : Int) ∧ (elements.length : Int) < 2 ^ 31 := by omega
  have last := readByte_decodes 0 _ reads.back
  have sub : Reads { r with size := elements.length } elements :=
    ⟨reads.front.held, Int.le_refl _, inRange.2⟩
  change (intExpr ((elements.length : Int) + 5 - 5) r >>= fun value =>
    readBytes value.1 value.2 >>= fun bytes => readByte bytes.2 >>= fun read => _) = _
  rw [inner, intExpr, if_pos inRange]
  change (readBytes elements.length r >>= fun bytes => readByte bytes.2 >>= fun read => _) = _
  rw [readBytes_ok reads.front]
  change (readByte (r.skip elements.length) >>= fun read => _) = _
  rw [last]
  change (do
    let (entries, _) ← (readElements (unpackDict rt fuel) array fuel []
      { r with size := elements.length } : Except Failure (List Entry × Reader))
    return LuaValue.table none (rt.rawlen entries) entries : Decoder LuaValue)
      ((r.skip elements.length).skip 1) = _
  rw [parsed _ sub rfl, List.length_append, ← Reader.skip_skip]
  rfl

theorem formatElements_payload_le (left : Nat) {entries : List Entry} {entry : Entry}
    (membership : entry ∈ entries) :
    (format left entry.2).2.length ≤ (formatElements left entries).length := by
  have inside : (formatElement left entry).length ≤ (formatElements left entries).length :=
    (List.sublist_flatten_of_mem (List.mem_map_of_mem membership)).length_le
  simp only [formatElement, element, List.length_append] at inside
  omega

theorem formatElements_count_le (left : Nat) (entries : List Entry) :
    entries.length ≤ (formatElements left entries).length := by
  induction entries with
  | nil => exact Nat.le_refl _
  | cons entry rest inductionHypothesis =>
      have split : formatElements left (entry :: rest) =
          formatElement left entry ++ formatElements left rest := rfl
      rw [split, List.length_append, List.length_cons]
      simp only [formatElement, element, List.length_append, List.length_cons]
      omega

theorem unpackDict_document {left fuel : Nat} {entries : List Entry} (array : Bool)
    (values : ∀ entry ∈ entries, Decodes (readValue (unpackDict rt fuel) (format left entry.2).1)
      (format left entry.2).2 (returned rt left entry.2))
    (names : ∀ entry ∈ entries, 0 ∉ entryName entry.1)
    (enough : (document (formatElements left entries)).length ≤ fuel + 1)
    (short : (document (formatElements left entries)).length < 2 ^ 31) :
    Decodes (unpackDict rt (fuel + 1) array) (document (formatElements left entries))
      (.table none (rt.rawlen (storeElements (returned rt left) array entries []))
        (storeElements (returned rt left) array entries [])) := by
  have count := formatElements_count_le left entries
  rw [document_length] at enough short
  rw [unpackDict_body, document]
  refine Decodes.bind (readInt32_decodes _ (by omega) (by omega)) ?_
  refine unpackBody_decodes rt short ?_
  exact readElements_eq _ (returned rt left) entries [] fuel (by omega) names values

theorem format_decodes {arrays : Prop} (left : Nat) (value : LuaValue)
    (encodable : Encodable arrays left value) (fuel : Nat)
    (enough : (format left value).2.length ≤ fuel)
    (short : (format left value).2.length < 2 ^ 31) :
    Decodes (readValue (unpackDict rt fuel) (format left value).1) (format left value).2
      (returned rt left value) := by
  induction left generalizing value fuel with
  | zero =>
      cases encodable with
      | scalar scalar =>
          rw [returned_scalar rt 0 scalar]
          exact scalar_decodes _ scalar 0 short
  | succ left inductionHypothesis =>
      have nested : ∀ fuel entries, (∀ entry ∈ entries, Encodable arrays left entry.2) →
          (document (formatElements left entries)).length ≤ fuel + 1 →
          (document (formatElements left entries)).length < 2 ^ 31 →
          ∀ entry ∈ entries, Decodes (readValue (unpackDict rt fuel) (format left entry.2).1)
            (format left entry.2).2 (returned rt left entry.2) := by
        intro fuel entries values enough short entry membership
        have inside := formatElements_payload_le left membership
        rw [document_length] at enough short
        exact inductionHypothesis entry.2 (values entry membership) fuel (by omega) (by omega)
      cases encodable with
      | scalar scalar =>
          rw [returned_scalar rt _ scalar]
          exact scalar_decodes _ scalar _ short
      | table keys distinct values =>
          obtain ⟨fuel, rfl⟩ : ∃ f, fuel = f + 1 := by
            rw [format_table, document_length] at enough
            exact ⟨fuel - 1, by omega⟩
          exact unpackDict_document rt false (nested fuel _ values enough short)
            (Encodable.table_names keys) enough short
      | array allowed isarray keys values =>
          obtain ⟨fuel, rfl⟩ : ∃ f, fuel = f + 1 := by
            rw [format_table, document_length] at enough
            exact ⟨fuel - 1, by omega⟩
          have decodes := unpackDict_document rt true (nested fuel _ values enough short)
            (Encodable.array_names keys) enough short
          simp only [format_table, returned, holdsArray, isarray]
          exact decodes

theorem document_counted {elements : Bytes} (short : (document elements).length < 2 ^ 31) :
    signed 4 (leValue ((document elements).take 4)) = (document elements).length := by
  have length := document_length elements
  rw [length] at short
  rw [length, document, List.take_left' (intBytes_length 4 _), leValue_intBytes,
    signed_emod _ 4 (by omega) (by omega)]
  push_cast
  rfl

/-- `bson.decode` of a document that `unpack_dict` can read wherever it lies. -/
theorem ldecode_decodes {elements : Bytes} {value : LuaValue} {fuel : Nat}
    (decodes : Decodes (unpackDict rt fuel false) (document elements) value)
    (short : (document elements).length < 2 ^ 31) :
    ldecode rt fuel (some (document elements)) = .ok (some value) := by
  have counted := document_counted short
  have length := document_length elements
  rw [length] at short
  have narrow : ((document elements).length : Int) < 2 ^ 31 := by omega
  have result := decodes
    { memory := document elements, ptr := 0, size := (document elements).length }
    ⟨⟨[], [], by simp, rfl⟩, Int.le_refl _, narrow⟩
  have readable : ¬ (document elements).length < 4 := by omega
  simp only [ldecode, if_neg readable, counted]
  rw [result]
  rfl

theorem ldecode_document {arrays : Prop} {entries : List Entry} {fuel : Nat}
    (encodable : Encodable arrays (maxDepth + 1) (.table none 0 entries))
    (enough : (document (formatElements maxDepth entries)).length ≤ fuel)
    (short : (document (formatElements maxDepth entries)).length < 2 ^ 31) :
    ldecode rt fuel (some (document (formatElements maxDepth entries))) =
      .ok (some (returned rt (maxDepth + 1) (.table none 0 entries))) :=
  ldecode_decodes rt (format_decodes rt (maxDepth + 1) _ encodable fuel enough short) short

end Tables

end CrossOver.Lua.Bson
