import CrossOver.Engine.Mysql.ResultSet

/-!
# The block between the two threads

A column is serialised as one or two pieces, and the pieces of all columns of
all rows follow each other in the block.  Both loops keep their place in an
`int`.  The lemmas say exactly when the writer and the reader get through, for
the stream of the pieces: `Fits` is about the room for it, and being a prefix of
the block is about its content.
-/

namespace CrossOver.Engine.Mysql

open CrossOver.Lib

theorem toInt_add (offset count : Int) : toInt (toInt offset + count) = toInt (offset + count) := by
  simp only [toInt, Int.bmod_add_bmod]

theorem toInt_natCast {offset : Nat} (small : offset < 2 ^ 32) :
    toInt offset = if offset < 2 ^ 31 then (offset : Int) else offset - 2 ^ 32 := by
  simp only [toInt, Int.bmod]
  split <;> split <;> omega

theorem toInt_small {count : Nat} (few : count < 2 ^ 31) : (toInt count).toNat = count := by
  rw [toInt_natCast (by omega), if_pos few, Int.toNat_natCast]

theorem toInt_lt (value : Int) : toInt value < 2 ^ 31 := by
  unfold toInt
  rw [Int.bmod_def]
  split <;> omega

/-- Each nonempty piece starts where an `int` is positive and ends in the block. -/
def Fits (capacity : Nat) : Nat → List Bytes → Prop
  | _, [] => True
  | offset, piece :: rest =>
      (piece = [] ∨ offset < 2 ^ 31 ∧ offset + piece.length ≤ capacity) ∧
        Fits capacity (offset + piece.length) rest

instance Fits.decidable (capacity : Nat) :
    ∀ (offset : Nat) (pieces : List Bytes), Decidable (Fits capacity offset pieces)
  | _, [] => .isTrue trivial
  | offset, piece :: rest =>
      have := Fits.decidable capacity (offset + piece.length) rest
      inferInstanceAs (Decidable (_ ∧ _))

theorem fits_append {capacity offset : Nat} {first second : List Bytes} :
    Fits capacity offset (first ++ second) ↔
      Fits capacity offset first ∧ Fits capacity (offset + first.flatten.length) second := by
  induction first generalizing offset with
  | nil => simp [Fits]
  | cons piece rest inductionHypothesis =>
      simp only [List.cons_append, Fits, inductionHypothesis, List.flatten_cons,
        List.length_append, and_assoc, Nat.add_assoc]

theorem Fits.inside {capacity offset : Nat} {pieces : List Bytes} (inside : offset ≤ capacity)
    (fits : Fits capacity offset pieces) : offset + pieces.flatten.length ≤ capacity := by
  induction pieces generalizing offset with
  | nil => simpa using inside
  | cons piece rest inductionHypothesis =>
      obtain ⟨here, later⟩ := fits
      have next : offset + piece.length ≤ capacity := by
        obtain rfl | ⟨-, bound⟩ := here
        · exact inside
        · exact bound
      have reached := inductionHypothesis next later
      simp only [List.flatten_cons, List.length_append]
      omega

section

variable {block data : Bytes} {offset count : Nat}

theorem inBounds_eq_ok {Result : Type} {found : Option Result} {result : Result} :
    inBounds found = .ok result ↔ found = some result := by
  cases found with
  | none => simp [inBounds]
  | some value => simp [inBounds]

/-- Where an access from a converted offset stays in the block. -/
theorem reaches_iff (small : block.length < 2 ^ 32) (inside : offset ≤ block.length) :
    0 ≤ toInt offset ∧ toInt offset + count ≤ block.length ↔
      offset < 2 ^ 31 ∧ offset + count ≤ block.length := by
  rw [toInt_natCast (by omega)]
  split <;> omega

theorem store_eq_some (small : block.length < 2 ^ 32) (inside : offset ≤ block.length)
    {result : Bytes} :
    store block (toInt offset) data = some result ↔
      (data = [] ∨ offset < 2 ^ 31 ∧ offset + data.length ≤ block.length) ∧
        result = memcpy block offset data := by
  by_cases empty : data = []
  · simp [store, empty, memcpy, eq_comm]
  · simp only [store, empty, if_false, false_or, reaches_iff small inside]
    by_cases room : offset < 2 ^ 31 ∧ offset + data.length ≤ block.length
    · rw [if_pos room, toInt_small room.1, Option.some.injEq, eq_comm (b := result)]
      exact (and_iff_right room).symm
    · rw [if_neg room]
      exact iff_of_false (by simp) fun holds => room holds.1

theorem load_eq_some (small : block.length < 2 ^ 32) (inside : offset ≤ block.length)
    {result : Bytes} :
    load block (toInt offset) count = some result ↔
      (count = 0 ∨ offset < 2 ^ 31 ∧ offset + count ≤ block.length) ∧
        result = (block.drop offset).take count := by
  by_cases empty : count = 0
  · simp [load, empty, eq_comm]
  · simp only [load, empty, if_false, false_or, reaches_iff small inside]
    by_cases room : offset < 2 ^ 31 ∧ offset + count ≤ block.length
    · rw [if_pos room, toInt_small room.1, Option.some.injEq, eq_comm (b := result)]
      exact (and_iff_right room).symm
    · rw [if_neg room]
      exact iff_of_false (by simp) fun holds => room holds.1

end

def FieldType.pieces (type : FieldType) (bytes : Bytes) : List Bytes :=
  if type.isString then [leBytes 4 bytes.length, bytes] else [bytes]

/-- The offsets reached after chunks of the given lengths. -/
def marks : Nat → List Nat → List Int
  | _, [] => []
  | offset, length :: rest => toInt (offset + length : Nat) :: marks (offset + length) rest

theorem marks_append {offset : Nat} {first second : List Nat} :
    marks offset (first ++ second) = marks offset first ++ marks (offset + first.sum) second := by
  induction first generalizing offset with
  | nil => rfl
  | cons length rest inductionHypothesis =>
      simp only [List.cons_append, marks, inductionHypothesis, List.sum_cons, Nat.add_assoc]

namespace Column

def content (column : Column) : Bytes := column.memInfo.data.take column.memInfo.len

def pieces (column : Column) : List Bytes := column.bind.bufferType.pieces column.content

/-- The reported length lies in the buffer. -/
def Sound (column : Column) : Prop := column.memInfo.len ≤ column.memInfo.data.length

theorem Sound.content_length {column : Column} (sound : column.Sound) :
    column.content.length = column.memInfo.len := by
  rw [content, List.length_take]
  exact min_eq_left sound

theorem Sound.load {column : Column} (sound : column.Sound) :
    Lib.load column.memInfo.data 0 column.memInfo.len = some column.content := by
  rw [Lib.load, content]
  rw [Sound] at sound
  by_cases empty : column.memInfo.len = 0
  · simp [empty]
  · rw [if_neg empty, if_pos (by omega)]
    simp

end Column

section

variable {block : Bytes}

/-- The block after the bytes `front` were written to its start. -/
def laid (block front : Bytes) (ends : List Int) : Written :=
  { data := memcpy block 0 front, offset := toInt front.length, ends }

theorem laid_store (small : block.length < 2 ^ 32) {front piece result : Bytes}
    (inside : front.length ≤ block.length) :
    store (memcpy block 0 front) (toInt front.length) piece = some result ↔
      (piece = [] ∨ front.length < 2 ^ 31 ∧ front.length + piece.length ≤ block.length) ∧
        result = memcpy block 0 (front ++ piece) := by
  have same : (memcpy block 0 front).length = block.length := memcpy_length (by omega)
  rw [store_eq_some (by omega) (by omega), same, memcpy_memcpy]

theorem writeColumn_ok (small : block.length < 2 ^ 32) {front : Bytes} {ends : List Int}
    {column : Column} {written : Written} (inside : front.length ≤ block.length)
    (sound : column.Sound) :
    writeColumn (laid block front ends) column = .ok written ↔
      Fits block.length front.length column.pieces ∧
        written = laid block (front ++ column.pieces.flatten)
          (ends ++ [toInt (front.length + column.pieces.flatten.length : Nat)]) := by
  have length := sound.content_length
  simp only [writeColumn, Lib.bind_eq_ok, inBounds_eq_ok, sound.load, Option.some.injEq,
    exists_eq_left', laid]
  by_cases string : column.bind.bufferType.isString = true
  · simp only [string, if_true, Lib.bind_eq_ok, inBounds_eq_ok, toInt_add, Lib.pure_eq_ok,
      Column.pieces, FieldType.pieces, Fits, List.flatten_cons, List.flatten_nil, List.append_nil,
      and_true, laid_store small inside, length, and_assoc, exists_and_left, exists_eq_left]
    apply and_congr_right
    intro header
    have room : (front ++ leBytes 4 column.memInfo.len).length ≤ block.length := by
      rw [List.length_append]
      obtain empty | ⟨-, bound⟩ := header
      · simp [← List.length_eq_zero_iff] at empty
      · exact bound
    have body : ∀ filled, store (memcpy block 0 (front ++ leBytes 4 column.memInfo.len))
        (toInt ((front.length : Int) + 4)) column.content = some filled ↔
          (column.content = [] ∨ front.length + 4 < 2 ^ 31 ∧
            front.length + 4 + column.memInfo.len ≤ block.length) ∧
          filled = memcpy block 0 (front ++ leBytes 4 column.memInfo.len ++ column.content) := by
      intro filled
      have position : (front.length : Int) + 4 =
          (front ++ leBytes 4 column.memInfo.len).length := by simp
      rw [position, laid_store small room, List.length_append, leBytes_length, length]
    simp only [body, and_assoc, exists_and_left, exists_eq_left, leBytes_length,
      List.length_append, length, eq_comm (b := written), List.append_assoc, Nat.cast_add,
      Nat.cast_ofNat, add_assoc]
  · simp only [string, Bool.false_eq_true, if_false, Lib.bind_eq_ok, inBounds_eq_ok, toInt_add,
      Lib.pure_eq_ok, Column.pieces, FieldType.pieces, Fits, List.flatten_cons, List.flatten_nil,
      List.append_nil, and_true, laid_store small inside, length, and_assoc, exists_and_left,
      exists_eq_left, List.length_append, eq_comm (b := written), Nat.cast_add]

def lengths (columns : List Column) : List Nat :=
  columns.map fun column => column.pieces.flatten.length

theorem lengths_sum (columns : List Column) :
    (lengths columns).sum = (columns.flatMap Column.pieces).flatten.length := by
  induction columns with
  | nil => rfl
  | cons column rest inductionHypothesis =>
      rw [lengths, List.map_cons, List.sum_cons, ← lengths, inductionHypothesis]
      simp only [List.flatMap_cons, List.flatten_append, List.length_append]

theorem writeColumns_ok (small : block.length < 2 ^ 32) {columns : List Column} {front : Bytes}
    {ends : List Int} {written : Written} (inside : front.length ≤ block.length)
    (sound : ∀ column ∈ columns, column.Sound) :
    columns.foldlM writeColumn (laid block front ends) = .ok written ↔
      Fits block.length front.length (columns.flatMap Column.pieces) ∧
        written = laid block (front ++ (columns.flatMap Column.pieces).flatten)
          (ends ++ marks front.length (lengths columns)) := by
  induction columns generalizing front ends with
  | nil =>
      simp only [List.foldlM_nil, Lib.pure_eq_ok, List.flatMap_nil, Fits, List.flatten_nil,
        List.append_nil, lengths, List.map_nil, marks, true_and, eq_comm (b := written)]
  | cons column rest inductionHypothesis =>
      rw [List.forall_mem_cons] at sound
      simp only [List.foldlM_cons, Lib.bind_eq_ok, writeColumn_ok small inside sound.1,
        and_assoc, exists_and_left, exists_eq_left, List.flatMap_cons, fits_append]
      apply and_congr_right
      intro here
      have room := here.inside inside
      rw [← List.length_append] at room
      rw [inductionHypothesis room sound.2]
      simp only [List.length_append, List.flatten_append, List.append_assoc, lengths,
        List.map_cons, marks, List.singleton_append]

end

/-- The bound buffers as they stand after each row. -/
def snapshots : List Column → List Row → List (List Column)
  | _, [] => []
  | columns, row :: rest => fetchRow columns row :: snapshots (fetchRow columns row) rest

/-- No value is longer than the buffer bound for it. -/
def Accepts (binds : List Bind) (row : Row) : Prop :=
  ∀ cell ∈ binds.zip row, ∀ bytes, cell.2 = some bytes → bytes.length ≤ cell.1.bufferLength

theorem nextRow_ok {columns fetched : List Column} {row : Row} :
    nextRow columns row = .ok fetched ↔
      Accepts (columns.map Column.bind) row ∧ fetched = fetchRow columns row := by
  have untruncated : Accepts (columns.map Column.bind) row ↔
      ((columns.zip row).any fun cell => cell.1.truncates cell.2) = false := by
    simp only [Accepts, List.zip_map_left, List.forall_mem_map, Prod.map, id, Column.truncates,
      List.any_eq_false, Option.any_eq_true, decide_eq_true_eq, not_exists, not_and, not_lt]
  rw [nextRow, untruncated]
  cases (columns.zip row).any fun cell => cell.1.truncates cell.2 with
  | true => simp
  | false => simp [eq_comm]

section

variable {columns : List Column} {row : Row} {rows : List Row}

@[simp]
theorem Column.fetch_bind (column : Column) (value : Option Bytes) :
    (column.fetch value).bind = column.bind := by
  cases value <;> rfl

@[simp]
theorem Column.fetch_columnName (column : Column) (value : Option Bytes) :
    (column.fetch value).memInfo.columnName = column.memInfo.columnName := by
  cases value <;> rfl

/-- What a fetch does not touch. -/
theorem fetchRow_map {Part : Type} (part : Column → Part)
    (same : ∀ column value, part (column.fetch value) = part column)
    (width : row.length = columns.length) :
    (fetchRow columns row).map part = columns.map part := by
  rw [fetchRow, List.map_zipWith]
  simp only [same]
  rw [← List.map_uncurry_zip_eq_zipWith]
  exact (List.map_map ..).symm.trans (congrArg _ (List.map_fst_zip (by omega)))

theorem fetchRow_length (width : row.length = columns.length) :
    (fetchRow columns row).length = columns.length := by
  rw [fetchRow, List.length_zipWith, width, min_self]

/-- The rows have a value for every column. -/
def Rectangular (width : Nat) (rows : List Row) : Prop := ∀ row ∈ rows, row.length = width

theorem fetchRows_map {Part : Type} (part : Column → Part)
    (same : ∀ column value, part (column.fetch value) = part column)
    (rectangular : Rectangular columns.length rows) :
    (rows.foldl fetchRow columns).map part = columns.map part := by
  induction rows generalizing columns with
  | nil => rfl
  | cons row rest inductionHypothesis =>
      obtain ⟨width, others⟩ := List.forall_mem_cons.mp rectangular
      rw [List.foldl_cons, inductionHypothesis, fetchRow_map part same width]
      rw [Rectangular, fetchRow_length width]
      exact others

theorem writeRows_ok (rectangular : Rectangular columns.length rows)
    {written : Written} {result : List Column × Written} :
    writeRows rows columns written = .ok result ↔
      (∀ row ∈ rows, Accepts (columns.map Column.bind) row) ∧
        (snapshots columns rows).flatten.foldlM writeColumn written = .ok result.2 ∧
        result.1 = rows.foldl fetchRow columns := by
  induction rows generalizing columns written with
  | nil =>
      simp only [writeRows, Lib.pure_eq_ok, snapshots, List.flatten_nil, List.foldlM_nil,
        List.foldl_nil, List.not_mem_nil, false_imp_iff, implies_true, true_and, Prod.ext_iff,
        eq_comm (b := columns), eq_comm (a := written), and_comm]
  | cons row rest inductionHypothesis =>
      obtain ⟨width, others⟩ := List.forall_mem_cons.mp rectangular
      have next : Rectangular (fetchRow columns row).length rest := by
        rw [Rectangular, fetchRow_length width]
        exact others
      simp only [writeRows, Lib.bind_eq_ok, nextRow_ok, and_assoc, exists_and_left,
        exists_eq_left, inductionHypothesis next, snapshots, List.flatten_cons,
        List.foldlM_append, List.foldl_cons, List.forall_mem_cons,
        fetchRow_map Column.bind Column.fetch_bind width]
      apply and_congr_right
      intro accepted
      constructor
      · rintro ⟨between, here, rest, later, last⟩
        exact ⟨rest, ⟨between, here, later⟩, last⟩
      · rintro ⟨rest, ⟨between, here, later⟩, last⟩
        exact ⟨between, here, rest, later, last⟩

end

theorem append_prefix_iff {first second stream : Bytes} :
    first ++ second <+: stream ↔ first <+: stream ∧ second <+: stream.drop first.length := by
  constructor
  · rintro ⟨rest, rfl⟩
    rw [List.append_assoc, List.drop_left]
    exact ⟨List.prefix_append _ _, List.prefix_append _ _⟩
  · rintro ⟨⟨rest, rfl⟩, second⟩
    rw [List.drop_left] at second
    exact (List.prefix_append_right_inj first).mpr second

/-- What stays of a column while its buffer changes. -/
structure Heading where
  name : String
  type : FieldType
  isUnsigned : Bool
  deriving DecidableEq, Repr

def Field.heading (field : Field) : Heading := ⟨field.name, field.type, field.isUnsigned⟩

def Column.heading (column : Column) : Heading :=
  ⟨column.memInfo.columnName, column.bind.bufferType, column.bind.isUnsigned⟩

def FieldType.fixedWidth : FieldType → Option Nat
  | .tiny => some 1
  | .year | .short => some 2
  | .int24 | .long => some 4
  | .longlong => some 8
  | .float => some 4
  | .double => some 8
  | .time | .date | .datetime | .timestamp => some sizeofMysqlTime
  | _ => none

/-- The types that `BuildLuaResult` decodes. -/
def FieldType.Readable (type : FieldType) : Prop :=
  type ∈ [.string, .varString, .json, .tiny, .short, .long, .float, .double]

instance (type : FieldType) : Decidable type.Readable := by
  unfold FieldType.Readable
  infer_instance

namespace Heading

def value (heading : Heading) (bytes : Bytes) : LuaValue :=
  match heading.type with
  | .tiny | .year | .short | .int24 | .long | .longlong => integerOf heading.isUnsigned bytes
  | .float => .single (leValue bytes)
  | .double => .double (leValue bytes)
  | _ => .string bytes

/-- The bytes have the width of the type. -/
def Sized (heading : Heading) (bytes : Bytes) : Prop :=
  ∀ width, heading.type.fixedWidth = some width → bytes.length = width

end Heading

theorem integerOf_inj {isUnsigned : Bool} {first second : Bytes}
    (length : first.length = second.length)
    (same : integerOf isUnsigned first = integerOf isUnsigned second) : first = second := by
  have equal : leValue first = leValue second := by
    have firstSmall := leValue_lt first
    have secondSmall := leValue_lt second
    rw [length] at firstSmall
    simp only [integerOf, LuaValue.number.injEq, length] at same
    cases isUnsigned with
    | true => exact Int.ofNat.inj same
    | false =>
        simp only [Bool.false_eq_true, if_false] at same
        have congruent : (leValue first : Int) % (256 ^ second.length : Nat) =
            (leValue second : Int) % (256 ^ second.length : Nat) := by
          rw [← Int.bmod_emod, same, Int.bmod_emod]
        rw [Int.emod_eq_of_lt (by omega) (by exact_mod_cast firstSmall),
          Int.emod_eq_of_lt (by omega) (by exact_mod_cast secondSmall)] at congruent
        exact Int.ofNat.inj congruent
  rw [← leBytes_leValue first, ← leBytes_leValue second, equal, length]

section

variable {data : Bytes} {offset : Nat}

theorem readFixed_ok (small : data.length < 2 ^ 32) (inside : offset ≤ data.length) {width : Nat}
    {read : Bytes → LuaValue} {bytes : Bytes} {next : Int} (sized : bytes.length = width)
    (positive : 0 < width)
    (injective : ∀ other : Bytes, other.length = width → read other = read bytes → other = bytes) :
    readFixed data (toInt offset) width read = .ok (read bytes, next) ↔
      Fits data.length offset [bytes] ∧ bytes <+: data.drop offset ∧
        next = toInt (offset + bytes.length : Nat) := by
  have nonempty : bytes ≠ [] := by
    rintro rfl
    exact absurd sized positive.ne
  simp only [readFixed, Lib.bind_eq_ok, inBounds_eq_ok, load_eq_some small inside, and_assoc,
    exists_and_left, exists_eq_left, Lib.pure_eq_ok, Prod.mk.injEq, toInt_add, Fits, and_true,
    nonempty, false_or, positive.ne', sized, Nat.cast_add, eq_comm (b := next)]
  apply and_congr_right
  intro start
  apply and_congr_right
  intro room
  apply and_congr_left
  intro _
  rw [List.prefix_iff_eq_take, sized, eq_comm (a := bytes)]
  constructor
  · exact injective _ (by rw [List.length_take, List.length_drop]; omega)
  · exact congrArg read

theorem readString_ok (small : data.length < 2 ^ 32) (inside : offset ≤ data.length)
    {bytes : Bytes} {next : Int} :
    (do
      let header ← inBounds (load data (toInt offset) 4)
      let offset := toInt (toInt offset + 4)
      let found ← inBounds (load data offset (leValue header))
      pure (LuaValue.string found, toInt (offset + leValue header))) =
        (.ok (.string bytes, next) : Except Fault (LuaValue × Int)) ↔
      Fits data.length offset [leBytes 4 bytes.length, bytes] ∧
        leBytes 4 bytes.length ++ bytes <+: data.drop offset ∧
        next = toInt (offset + (leBytes 4 bytes.length ++ bytes).length : Nat) := by
  have header : leBytes 4 bytes.length ≠ [] := by simp [← List.length_eq_zero_iff]
  simp only [Lib.bind_eq_ok, inBounds_eq_ok, load_eq_some small inside, and_assoc,
    exists_and_left, exists_eq_left, Lib.pure_eq_ok, Prod.mk.injEq, toInt_add, Fits, and_true,
    header, false_or, OfNat.ofNat_ne_zero, leBytes_length, LuaValue.string.injEq]
  apply and_congr_right
  intro start
  apply and_congr_right
  intro room
  have position : toInt ((offset : Int) + 4) = toInt (offset + 4 : Nat) := rfl
  rw [position]
  simp only [load_eq_some small room, and_assoc, exists_and_left, exists_eq_left]
  have front : ((data.drop offset).take 4).length = 4 := by
    rw [List.length_take, List.length_drop]
    omega
  constructor
  · rintro ⟨fits, found, rfl⟩
    have length : leValue ((data.drop offset).take 4) = bytes.length := by
      rw [← found, List.length_take, List.length_drop]
      omega
    have read : leBytes 4 bytes.length = (data.drop offset).take 4 := by
      rw [← length]
      nth_rewrite 1 [← front]
      exact leBytes_leValue _
    rw [length] at fits found ⊢
    refine ⟨?_, ?_, ?_⟩
    · rwa [List.length_eq_zero_iff] at fits
    · have rear : bytes ++ (data.drop (offset + 4)).drop bytes.length = data.drop (offset + 4) := by
        nth_rewrite 1 [← found]
        exact List.take_append_drop _ _
      refine ⟨(data.drop (offset + 4)).drop bytes.length, ?_⟩
      rw [List.append_assoc, rear, read, ← List.drop_drop, List.take_append_drop]
    · simp [add_assoc]
  · rintro ⟨fits, isPrefix, nextEq⟩
    obtain ⟨rest, split⟩ := isPrefix
    have bound : bytes.length < 256 ^ 4 := by
      have total := congrArg List.length split
      simp only [List.length_append, List.length_drop, leBytes_length] at total
      omega
    have taken : (data.drop offset).take 4 = leBytes 4 bytes.length := by
      rw [← split, List.append_assoc, List.take_left' (leBytes_length _ _)]
    have dropped : data.drop (offset + 4) = bytes ++ rest := by
      rw [← List.drop_drop, ← split, List.append_assoc, List.drop_left' (leBytes_length _ _)]
    rw [taken, leValue_leBytes bound, dropped, List.take_left]
    refine ⟨?_, rfl, ?_⟩
    · rwa [List.length_eq_zero_iff]
    · rw [nextEq]
      simp [add_assoc]

theorem readValue_ok (small : data.length < 2 ^ 32) (inside : offset ≤ data.length)
    {column : Column} {bytes : Bytes} {next : Int} (sized : column.heading.Sized bytes) :
    readValue data (toInt offset) column.bind = .ok (column.heading.value bytes, next) ↔
      column.bind.bufferType.Readable ∧
        Fits data.length offset (column.bind.bufferType.pieces bytes) ∧
        (column.bind.bufferType.pieces bytes).flatten <+: data.drop offset ∧
        next = toInt (offset + (column.bind.bufferType.pieces bytes).flatten.length : Nat) := by
  obtain ⟨⟨type, isUnsigned, bufferLength⟩, info⟩ := column
  have single : [bytes].flatten = bytes := by simp
  have double : [leBytes 4 bytes.length, bytes].flatten = leBytes 4 bytes.length ++ bytes := by simp
  have readable : ∀ {known : FieldType}, known.Readable → ∀ {rest : Prop},
      (known.Readable ∧ rest ↔ rest) := fun known _ => and_iff_right known
  dsimp only
  cases type
  case string | varString | json =>
    rw [readable (by decide)]
    simp only [FieldType.pieces, FieldType.isString, if_true, double]
    exact readString_ok small inside
  case tiny | short | long =>
    rw [readable (by decide)]
    simp only [FieldType.pieces, FieldType.isString, Bool.false_eq_true, if_false, single]
    exact readFixed_ok small inside (sized _ rfl) (by decide) fun other length =>
      integerOf_inj (length.trans (sized _ rfl).symm)
  case float | double =>
    rw [readable (by decide)]
    simp only [FieldType.pieces, FieldType.isString, Bool.false_eq_true, if_false, single]
    refine readFixed_ok small inside (sized _ rfl) (by decide) fun other length same => ?_
    injection same with equal
    rw [← leBytes_leValue other, equal, length, ← sized _ rfl, leBytes_leValue]
  all_goals
    refine iff_of_false ?_ fun known => absurd known.1 (by decide)
    simp only [readValue, reduceCtorEq, not_false_eq_true]

def shown (headings : List Heading) (row : List Bytes) : List (String × LuaValue) :=
  List.zipWith (fun heading bytes => (heading.name, heading.value bytes)) headings row

/-- The bytes of a row, column by column, as they are serialised. -/
def serial (headings : List Heading) (row : List Bytes) : List (List Bytes) :=
  List.zipWith (fun heading bytes => heading.type.pieces bytes) headings row

theorem serial_cons (heading : Heading) (headings : List Heading) (bytes : Bytes)
    (row : List Bytes) :
    serial (heading :: headings) (bytes :: row) =
      heading.type.pieces bytes :: serial headings row := rfl

structure RowSized (headings : List Heading) (row : List Bytes) : Prop where
  length : row.length = headings.length
  sized : ∀ cell ∈ headings.zip row, cell.1.Sized cell.2

def chunkLengths (chunks : List (List Bytes)) : List Nat :=
  chunks.map fun chunk => chunk.flatten.length

theorem chunkLengths_sum (chunks : List (List Bytes)) :
    (chunkLengths chunks).sum = chunks.flatten.flatten.length := by
  induction chunks with
  | nil => rfl
  | cons chunk rest inductionHypothesis =>
      rw [chunkLengths, List.map_cons, List.sum_cons, ← chunkLengths, inductionHypothesis]
      simp only [List.flatten_cons, List.flatten_append, List.length_append]

theorem readColumns_fields {columns : List Column} {pushed result : Pushed}
    (read : columns.foldlM (readColumn data) pushed = .ok result) :
    pushed.fields <+: result.fields := by
  induction columns generalizing pushed with
  | nil =>
      rw [List.foldlM_nil, Lib.pure_eq_ok] at read
      exact read ▸ List.prefix_rfl
  | cons column rest inductionHypothesis =>
      rw [List.foldlM_cons, Lib.bind_eq_ok] at read
      obtain ⟨between, first, later⟩ := read
      rw [readColumn, Lib.bind_eq_ok] at first
      obtain ⟨⟨value, next⟩, -, done⟩ := first
      rw [Lib.pure_eq_ok] at done
      have grown := inductionHypothesis later
      rw [← done] at grown
      exact (List.prefix_append _ _).trans grown

def readBehind (offset : Nat) (ends : List Int) (fields : List (String × LuaValue))
    (headings : List Heading) (row : List Bytes) : Pushed where
  offset := toInt (offset + (serial headings row).flatten.flatten.length : Nat)
  ends := ends ++ marks offset (chunkLengths (serial headings row))
  fields := fields ++ shown headings row

theorem readBehind_cons {offset : Nat} {ends : List Int} {fields : List (String × LuaValue)}
    {heading : Heading} {headings : List Heading} {bytes : Bytes} {row : List Bytes} :
    readBehind offset ends fields (heading :: headings) (bytes :: row) =
      readBehind (offset + (heading.type.pieces bytes).flatten.length)
        (ends ++ [toInt (offset + (heading.type.pieces bytes).flatten.length : Nat)])
        (fields ++ [(heading.name, heading.value bytes)]) headings row := by
  simp only [readBehind, serial, shown, List.zipWith_cons_cons, chunkLengths, List.map_cons, marks,
    List.flatten_cons, List.flatten_append, List.length_append, Nat.add_assoc, List.append_assoc,
    List.singleton_append]

/-- Reading a row of columns gives the wanted fields exactly when their bytes are
what comes next in the block. -/
theorem readColumns_ok (small : data.length < 2 ^ 32) {columns : List Column} {row : List Bytes}
    {offset : Nat} (inside : offset ≤ data.length)
    (rowSized : RowSized (columns.map Column.heading) row)
    (ends : List Int) (fields : List (String × LuaValue)) (result : Pushed) :
    columns.foldlM (readColumn data) { offset := toInt offset, ends, fields } = .ok result ∧
        result.fields = fields ++ shown (columns.map Column.heading) row ↔
      (∀ column ∈ columns, column.bind.bufferType.Readable) ∧
        Fits data.length offset (serial (columns.map Column.heading) row).flatten ∧
        (serial (columns.map Column.heading) row).flatten.flatten <+: data.drop offset ∧
        result = readBehind offset ends fields (columns.map Column.heading) row := by
  induction columns generalizing row offset ends fields with
  | nil =>
      obtain rfl := List.length_eq_zero_iff.mp rowSized.length
      simp only [List.foldlM_nil, Lib.pure_eq_ok, List.map_nil, shown, serial,
        List.zipWith_nil_left, List.append_nil, List.not_mem_nil, false_imp_iff, implies_true,
        List.flatten_nil, Fits, List.nil_prefix, true_and, List.length_nil, Nat.add_zero,
        readBehind, chunkLengths, marks, eq_comm (b := result)]
      exact and_iff_left_of_imp fun same => by rw [same]
  | cons column rest inductionHypothesis =>
      obtain _ | ⟨bytes, later⟩ := row
      · exact absurd rowSized.length (by simp)
      have sized := rowSized.sized
      rw [List.map_cons, List.zip_cons_cons, List.forall_mem_cons] at sized
      have restSized : RowSized (rest.map Column.heading) later :=
        ⟨by simpa using rowSized.length, sized.2⟩
      rw [List.foldlM_cons, Lib.bind_eq_ok, List.map_cons, readBehind_cons, shown, serial,
        List.zipWith_cons_cons, List.zipWith_cons_cons, ← shown, ← serial]
      constructor
      · rintro ⟨⟨between, first, others⟩, fieldsEq⟩
        rw [readColumn, Lib.bind_eq_ok] at first
        obtain ⟨⟨value, next⟩, read, done⟩ := first
        rw [Lib.pure_eq_ok] at done
        subst done
        dsimp only at read
        have grown := readColumns_fields others
        rw [fieldsEq, List.prefix_append_right_inj, List.cons_prefix_cons, Prod.mk.injEq] at grown
        obtain ⟨⟨-, rfl⟩, -⟩ := grown
        obtain ⟨readable, fits, isPrefix, nextEq⟩ := (readValue_ok small inside sized.1).mp read
        rw [nextEq] at others
        rw [List.append_cons] at fieldsEq
        obtain ⟨allReadable, laterFits, laterPrefix, resultEq⟩ :=
          (inductionHypothesis (fits.inside inside) restSized _ _).mp ⟨others, fieldsEq⟩
        refine ⟨List.forall_mem_cons.mpr ⟨readable, allReadable⟩, ?_, ?_, ?_⟩
        · rw [List.flatten_cons, fits_append]
          exact ⟨fits, laterFits⟩
        · rw [List.flatten_cons, List.flatten_append, append_prefix_iff, List.drop_drop]
          exact ⟨isPrefix, laterPrefix⟩
        · exact resultEq
      · rintro ⟨readable, fits, isPrefix, resultEq⟩
        rw [List.forall_mem_cons] at readable
        rw [List.flatten_cons, fits_append] at fits
        rw [List.flatten_cons, List.flatten_append, append_prefix_iff, List.drop_drop] at isPrefix
        have read := (readValue_ok small inside sized.1).mpr
          ⟨readable.1, fits.1, isPrefix.1, Eq.refl (toInt _)⟩
        obtain ⟨others, fieldsEq⟩ := (inductionHypothesis (fits.1.inside inside) restSized _ _).mpr
          ⟨readable.2, fits.2, isPrefix.2, resultEq⟩
        rw [← List.append_cons] at fieldsEq
        have first : readColumn data { offset := toInt offset, ends, fields } column = .ok {
            offset := toInt (offset + (column.bind.bufferType.pieces bytes).flatten.length : Nat)
            ends := ends ++
              [toInt (offset + (column.bind.bufferType.pieces bytes).flatten.length : Nat)]
            fields := fields ++ [(column.heading.name, column.heading.value bytes)] } := by
          rw [readColumn, read]
          rfl
        exact ⟨⟨_, first, others⟩, fieldsEq⟩

/-- The table that stands for rows of bytes; `key` rows come before them. -/
def luaRows (headings : List Heading) (key : Nat) (table : List (List Bytes)) : LuaRows :=
  (table.zipIdx (key + 1)).map fun entry => (entry.2, shown headings entry.1)

/-- Reading the rows gives the wanted table exactly when its bytes are what comes
next in the block. -/
theorem readRows_ok (small : data.length < 2 ^ 32) {columns : List Column}
    {table : List (List Bytes)} {offset : Nat} (inside : offset ≤ data.length)
    (sized : ∀ row ∈ table, RowSized (columns.map Column.heading) row) (key : Nat)
    (ends : List Int) :
    readRows data columns table.length key (toInt offset) =
        .ok (luaRows (columns.map Column.heading) key table, ends) ↔
      (table = [] ∨ ∀ column ∈ columns, column.bind.bufferType.Readable) ∧
        Fits data.length offset (table.flatMap (serial (columns.map Column.heading))).flatten ∧
        (table.flatMap (serial (columns.map Column.heading))).flatten.flatten <+:
          data.drop offset ∧
        ends = marks offset
          (chunkLengths (table.flatMap (serial (columns.map Column.heading)))) := by
  induction table generalizing key offset ends with
  | nil =>
      simp only [List.length_nil, readRows, Lib.pure_eq_ok, luaRows, List.zipIdx_nil, List.map_nil,
        Prod.mk.injEq, true_and, true_or, List.flatMap_nil, List.flatten_nil, Fits,
        List.nil_prefix, chunkLengths, marks, eq_comm (b := ends)]
  | cons row rest inductionHypothesis =>
      obtain ⟨rowSized, others⟩ := List.forall_mem_cons.mp sized
      have first := readColumns_ok small inside rowSized [] []
      simp only [List.nil_append] at first
      simp only [List.length_cons, readRows, Lib.bind_eq_ok, Lib.pure_eq_ok, luaRows,
        List.zipIdx_cons, List.map_cons, Prod.mk.injEq, List.cons.injEq, true_and, reduceCtorEq,
        false_or, List.flatMap_cons, List.flatten_append, fits_append, append_prefix_iff,
        chunkLengths, List.map_append, marks_append]
      constructor
      · rintro ⟨pushed, read, ⟨rows, laterEnds⟩, later, ⟨fieldsEq, rfl⟩, rfl⟩
        obtain ⟨readable, fits, isPrefix, rfl⟩ := (first pushed).mp ⟨read, fieldsEq⟩
        dsimp only [readBehind] at later
        obtain ⟨-, laterFits, laterPrefix, rfl⟩ :=
          (inductionHypothesis (fits.inside inside) others _ _).mp later
        refine ⟨readable, ⟨fits, laterFits⟩, ⟨isPrefix, ?_⟩, ?_⟩
        · rwa [List.drop_drop]
        · rw [← chunkLengths, chunkLengths_sum]
          rfl
      · rintro ⟨readable, ⟨fits, laterFits⟩, ⟨isPrefix, laterPrefix⟩, rfl⟩
        rw [List.drop_drop] at laterPrefix
        obtain ⟨read, fieldsEq⟩ := (first _).mpr ⟨readable, fits, isPrefix, rfl⟩
        have later := (inductionHypothesis (fits.inside inside) others (key + 1) _).mpr
          ⟨.inr readable, laterFits, laterPrefix, rfl⟩
        have offsetEq : toInt (offset +
            (serial (columns.map Column.heading) row).flatten.flatten.length : Nat) =
              (readBehind offset [] [] (columns.map Column.heading) row).offset := by
          simp only [readBehind]
        rw [offsetEq] at later
        refine ⟨_, read, _, later, ⟨fieldsEq, rfl⟩, ?_⟩
        rw [← chunkLengths, chunkLengths_sum]
        rfl

theorem readRows_length {columns : List Column} {remaining row : Nat} {offset : Int}
    {rows : LuaRows} {ends : List Int}
    (read : readRows data columns remaining row offset = .ok (rows, ends)) :
    rows.length = remaining := by
  induction remaining generalizing row offset rows ends with
  | zero =>
      rw [readRows, Lib.pure_eq_ok, Prod.mk.injEq] at read
      rw [← read.1]
      rfl
  | succ remaining inductionHypothesis =>
      rw [readRows, Lib.bind_eq_ok] at read
      obtain ⟨pushed, -, read⟩ := read
      rw [Lib.bind_eq_ok] at read
      obtain ⟨⟨laterRows, laterEnds⟩, later, done⟩ := read
      rw [Lib.pure_eq_ok, Prod.mk.injEq] at done
      rw [← done.1, List.length_cons, inductionHypothesis later]

end

end CrossOver.Engine.Mysql
