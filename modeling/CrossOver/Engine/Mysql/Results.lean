import CrossOver.Engine.Mysql.Serial

/-!
# Which results reach Lua

`deliver_ok` puts the two threads together: the table that Lua gets is the wanted
one exactly when the bytes of that table are at the start of what was written.
For rows without NULLs the bytes written are those of the rows themselves, so
all that can go wrong is a type without a case in the reader, a value longer
than its buffer, and a block too large for the offsets.
-/

namespace CrossOver.Engine.Mysql

open CrossOver.Lib

namespace Field

/-- The types that `AllocateResultBuffer` knows. -/
def Allocates (field : Field) : Prop := ∃ length, resultBufferLength field = .ok length

def bufferLength (field : Field) : Nat :=
  match resultBufferLength field with
  | .ok length => length
  | .error _ => 0

/-- What the field adds to `row_size_`. -/
def rowBytes (field : Field) : Nat := (if field.type.isString then 4 else 0) + field.bufferLength

def bind (field : Field) : Bind where
  bufferType := field.type
  isUnsigned := field.isUnsigned
  bufferLength := field.bufferLength

def column (fresh : Nat → UInt8) (field : Field) : Column where
  bind := field.bind
  memInfo := {
    data := (List.range field.bufferLength).map fresh
    len := 0
    isNull := false
    columnName := field.name
  }

theorem Allocates.allocateResultBuffer {field : Field} (known : field.Allocates)
    (fresh : Nat → UInt8) : allocateResultBuffer fresh field = .ok (field.column fresh) := by
  obtain ⟨length, found⟩ := known
  have same : field.bufferLength = length := by rw [bufferLength, found]
  rw [Mysql.allocateResultBuffer, found, column, bind, same]
  rfl

end Field

/-- `data_` for that many rows. -/
def blockSize (fields : List Field) (count : Nat) : Nat :=
  (fields.map Field.rowBytes).sum % 2 ^ 32 * count % 2 ^ 32

/-- The columns of a statement that was not fetched from yet. -/
def bindColumns (boundLength : FieldType → Nat) (fresh : Nat → Nat → UInt8) :
    Nat → List Field → List Column
  | _, [] => []
  | index, field :: rest =>
      (field.column (fresh index)).bound boundLength ::
        bindColumns boundLength fresh (index + 1) rest

section

variable {boundLength : FieldType → Nat} {fresh : Nat → Nat → UInt8} {fields : List Field}

theorem bindColumns_map {Part : Type} (part : Column → Part) (same : Field → Part)
    (each : ∀ field index, part ((field.column (fresh index)).bound boundLength) = same field)
    (index : Nat) : (bindColumns boundLength fresh index fields).map part = fields.map same := by
  induction fields generalizing index with
  | nil => rfl
  | cons field rest inductionHypothesis =>
      rw [bindColumns, List.map_cons, List.map_cons, each, inductionHypothesis]

theorem bindColumns_heading (index : Nat) :
    (bindColumns boundLength fresh index fields).map Column.heading = fields.map Field.heading :=
  bindColumns_map Column.heading Field.heading (fun _ _ => rfl) index

theorem bindColumns_length (index : Nat) :
    (bindColumns boundLength fresh index fields).length = fields.length := by
  have headings := congrArg List.length (@bindColumns_heading boundLength fresh fields index)
  rwa [List.length_map, List.length_map] at headings

theorem allocateColumns_ok (boundLength : FieldType → Nat) (fresh : Nat → Nat → UInt8)
    (known : ∀ field ∈ fields, field.Allocates) (index : Nat) :
    ∃ columns, allocateColumns fresh index fields = .ok columns ∧
      columns.map (Column.bound boundLength) = bindColumns boundLength fresh index fields ∧
      columns.map Column.rowBytes = fields.map Field.rowBytes := by
  induction fields generalizing index with
  | nil => exact ⟨[], rfl, rfl, rfl⟩
  | cons field rest inductionHypothesis =>
      rw [List.forall_mem_cons] at known
      obtain ⟨columns, allocated, bound, sizes⟩ := inductionHypothesis known.2 (index + 1)
      refine ⟨field.column (fresh index) :: columns, ?_, ?_, ?_⟩
      · rw [allocateColumns, known.1.allocateResultBuffer, Lib.ok_bind, allocated, Lib.ok_bind]
        rfl
      · rw [List.map_cons, bound, bindColumns]
      · rw [List.map_cons, List.map_cons, sizes]
        rfl

theorem foldl_rowBytes (columns : List Column) (size : Nat) :
    columns.foldl (fun size column => (size + column.rowBytes) % 2 ^ 32) size % 2 ^ 32 =
      (size + (columns.map Column.rowBytes).sum) % 2 ^ 32 := by
  induction columns generalizing size with
  | nil => rfl
  | cons column rest inductionHypothesis =>
      rw [List.foldl_cons, inductionHypothesis, List.map_cons, List.sum_cons, Nat.mod_add_mod,
        Nat.add_assoc]

/-- `Init` of a statement all of whose fields have a known type. -/
theorem init_ok (known : ∀ field ∈ fields, field.Allocates) (rows : List Row) :
    ∃ rs, ResultSetMysql.init boundLength fresh fields rows = .ok rs ∧
      rs.columns = bindColumns boundLength fresh 0 fields ∧ rs.stmt = rows ∧
      rs.rowCount = rows.length % 2 ^ 32 ∧
      rs.rowSize * rs.rowCount % 2 ^ 32 = blockSize fields rows.length ∧ rs.data = [] := by
  obtain ⟨columns, allocated, bound, sizes⟩ :=
    allocateColumns_ok boundLength fresh known 0
  refine ⟨_, by rw [ResultSetMysql.init, allocated]; rfl, bound, rfl, rfl, ?_, rfl⟩
  have size := foldl_rowBytes columns 0
  rw [Nat.zero_add, sizes] at size
  simp only [blockSize]
  rw [Nat.mul_mod_mod, ← Nat.mod_mul_mod, size]

theorem bindColumns_bind (index : Nat) :
    (bindColumns boundLength fresh index fields).map Column.bind =
      fields.map Field.bind :=
  bindColumns_map Column.bind Field.bind (fun _ _ => rfl) index

/-- The values of the row are not longer than the buffers of the fields. -/
def InBuffers (fields : List Field) (row : Row) : Prop :=
  ∀ cell ∈ fields.zip row, ∀ bytes, cell.2 = some bytes → bytes.length ≤ cell.1.bufferLength

theorem accepts_iff {row : Row} {index : Nat} :
    Accepts ((bindColumns boundLength fresh index fields).map Column.bind) row ↔
      InBuffers fields row := by
  rw [bindColumns_bind]
  simp only [Accepts, InBuffers, List.zip_map_left, List.forall_mem_map, Prod.map, id, Field.bind]

/-- The bytes of the rows as they are serialised. -/
def stream (fields : List Field) (table : List (List Bytes)) : List (List Bytes) :=
  table.flatMap (serial (fields.map Field.heading))

theorem toInt_toNat_lt (count : Nat) : (toInt count).toNat < 2 ^ 31 := by
  simp only [toInt, Int.bmod]
  split <;> omega

theorem buildBinResult_ok {rs rs' : ResultSetMysql} {block : Nat → UInt8} {ends : List Int}
    (rectangular : Rectangular rs.columns.length rs.stmt) (nonzero : rs.rowCount ≠ 0)
    (sound : (∀ row ∈ rs.stmt, Accepts (rs.columns.map Column.bind) row) →
      ∀ column ∈ (snapshots rs.columns rs.stmt).flatten, column.Sound) :
    rs.buildBinResult block = .ok (rs', ends) ↔
      (∀ row ∈ rs.stmt, Accepts (rs.columns.map Column.bind) row) ∧
        Fits (rs.rowSize * rs.rowCount % 2 ^ 32) 0
          ((snapshots rs.columns rs.stmt).flatten.flatMap Column.pieces) ∧
        rs' = { rs with
          columns := rs.stmt.foldl fetchRow rs.columns
          stmt := []
          data := memcpy ((List.range (rs.rowSize * rs.rowCount % 2 ^ 32)).map block) 0
            ((snapshots rs.columns rs.stmt).flatten.flatMap Column.pieces).flatten } ∧
        ends = marks 0 (lengths (snapshots rs.columns rs.stmt).flatten) := by
  have size : ((List.range (rs.rowSize * rs.rowCount % 2 ^ 32)).map block).length =
      rs.rowSize * rs.rowCount % 2 ^ 32 := by simp
  rw [ResultSetMysql.buildBinResult, if_neg nonzero]
  generalize (List.range (rs.rowSize * rs.rowCount % 2 ^ 32)).map block = memory at size ⊢
  have small : memory.length < 2 ^ 32 := by omega
  have start : ({ data := memory, offset := 0, ends := [] } : Written) = laid memory [] [] := by
    rw [laid, memcpy_nil]
    rfl
  simp only [start, Lib.bind_eq_ok, writeRows_ok rectangular, Prod.exists, Lib.pure_eq_ok,
    Prod.mk.injEq, ← size]
  constructor
  · rintro ⟨columns, written, ⟨accepts, wrote, rfl⟩, rfl, rfl⟩
    rw [writeColumns_ok small (Nat.zero_le _) (sound accepts)] at wrote
    obtain ⟨fits, rfl⟩ := wrote
    exact ⟨accepts, fits, rfl, rfl⟩
  · rintro ⟨accepts, fits, rfl, rfl⟩
    exact ⟨_, _, ⟨accepts, (writeColumns_ok small (Nat.zero_le _) (sound accepts)).mpr
      ⟨fits, rfl⟩, rfl⟩, rfl, rfl⟩

/-- What reaches Lua is the wanted table exactly when its bytes are at the start of
what was written. -/
theorem deliver_ok (known : ∀ field ∈ fields, field.Allocates) {rows : List Row}
    {columns : List Column} (columnsEq : columns = bindColumns boundLength fresh 0 fields)
    (rectangular : Rectangular fields.length rows) (some_row : rows ≠ [])
    (few : rows.length < 2 ^ 31) {table : List (List Bytes)} (count : table.length = rows.length)
    (sized : ∀ row ∈ table, RowSized (fields.map Field.heading) row)
    (sound : (∀ row ∈ rows, InBuffers fields row) →
      ∀ column ∈ (snapshots columns rows).flatten, column.Sound)
    {readEnds writtenEnds : List Int} :
    deliver boundLength fresh fields rows =
        .ok ((luaRows (fields.map Field.heading) 0 table, readEnds), writtenEnds) ↔
      (∀ row ∈ rows, InBuffers fields row) ∧
        Fits (blockSize fields rows.length) 0
          ((snapshots columns rows).flatten.flatMap Column.pieces) ∧
        writtenEnds = marks 0 (lengths (snapshots columns rows).flatten) ∧
        (∀ field ∈ fields, field.type.Readable) ∧
        Fits (blockSize fields rows.length) 0 (stream fields table).flatten ∧
        (stream fields table).flatten.flatten <+:
          memcpy ((List.range (blockSize fields rows.length)).map (fresh fields.length)) 0
            ((snapshots columns rows).flatten.flatMap Column.pieces).flatten ∧
        readEnds = marks 0 (chunkLengths (stream fields table)) := by
  obtain ⟨rs, inited, columnsRs, rfl, rowCount, size, -⟩ := init_ok known rows
  have counted : rs.rowCount = rs.stmt.length := by
    rw [rowCount, Nat.mod_eq_of_lt (by omega)]
  have nonzero : rs.rowCount ≠ 0 := by
    rw [counted]
    exact fun empty => some_row (List.length_eq_zero_iff.mp empty)
  rw [← columnsRs] at columnsEq
  subst columnsEq
  have width : rs.columns.length = fields.length := by rw [columnsRs, bindColumns_length]
  have headings : rs.columns.map Column.heading = fields.map Field.heading := by
    rw [columnsRs, bindColumns_heading]
  have accepts : ∀ row, Accepts (rs.columns.map Column.bind) row ↔ InBuffers fields row := by
    intro row
    rw [columnsRs, accepts_iff]
  rw [← width] at rectangular
  have fetched : (rs.stmt.foldl fetchRow rs.columns).map Column.heading =
      fields.map Field.heading := by
    rw [fetchRows_map Column.heading (fun column value => by cases value <;> rfl) rectangular,
      headings]
  have readable : (∀ column ∈ rs.stmt.foldl fetchRow rs.columns,
      column.bind.bufferType.Readable) ↔ ∀ field ∈ fields, field.type.Readable := by
    have byHeading : ∀ column : Column,
        column.bind.bufferType.Readable ↔ column.heading.type.Readable := fun _ => Iff.rfl
    simp only [byHeading]
    rw [← List.forall_mem_map (P := fun heading : Heading => heading.type.Readable), fetched,
      List.forall_mem_map]
    exact Iff.rfl
  have some_table : table ≠ [] := by
    rintro rfl
    exact some_row (List.length_eq_zero_iff.mp count.symm)
  simp only [deliver, inited, Lib.ok_bind, Lib.bind_eq_ok, Prod.exists, Lib.pure_eq_ok,
    Prod.mk.injEq, buildBinResult_ok rectangular nonzero (fun all => sound fun row membership =>
      (accepts row).mp (all row membership)), accepts, size]
  have room : ((List.range (blockSize fields rs.stmt.length)).map (fresh fields.length)).length =
      blockSize fields rs.stmt.length := by simp
  have small : blockSize fields rs.stmt.length < 2 ^ 32 := Nat.mod_lt _ (by norm_num)
  generalize (List.range (blockSize fields rs.stmt.length)).map (fresh fields.length) = memory
    at room ⊢
  generalize blockSize fields rs.stmt.length = capacity at room small ⊢
  subst room
  have sizes : ∀ {front : Bytes}, front.length ≤ memory.length →
      (memcpy memory 0 front).length = memory.length := fun inside => memcpy_length (by omega)
  have read : ∀ {front : Bytes}, front.length ≤ memory.length → ∀ ends,
      readRows (memcpy memory 0 front) (rs.stmt.foldl fetchRow rs.columns) rs.stmt.length 0 0 =
          .ok (luaRows (fields.map Field.heading) 0 table, ends) ↔
        (∀ field ∈ fields, field.type.Readable) ∧
          Fits memory.length 0 (stream fields table).flatten ∧
          (stream fields table).flatten.flatten <+: memcpy memory 0 front ∧
          ends = marks 0 (chunkLengths (stream fields table)) := by
    intro front inside ends
    have same := sizes inside
    have result := readRows_ok (by rw [same]; exact small)
      (Nat.zero_le (memcpy memory 0 front).length) (fetched.symm ▸ sized) 0 ends
    rw [fetched, readable, same, count] at result
    simp only [some_table, false_or, List.drop_zero] at result
    exact result
  constructor
  · rintro ⟨last, written, ⟨all, fits, rfl, rfl⟩, found, ends, delivered, ⟨rfl, rfl⟩, rfl⟩
    have inside := fits.inside (Nat.zero_le _)
    rw [Nat.zero_add] at inside
    rw [ResultSetMysql.buildLuaResult, counted, toInt_small few, read inside] at delivered
    exact ⟨all, fits, rfl, delivered⟩
  · rintro ⟨all, fits, rfl, delivered⟩
    have inside := fits.inside (Nat.zero_le _)
    rw [Nat.zero_add] at inside
    rw [← read inside] at delivered
    refine ⟨_, _, ⟨all, fits, rfl, rfl⟩, _, _, ?_, ⟨rfl, rfl⟩, rfl⟩
    rw [ResultSetMysql.buildLuaResult, counted, toInt_small few, delivered]

/-! Rows without NULLs. -/

/-- The row of values without a NULL. -/
def present (row : List Bytes) : Row := row.map some

theorem fetch_some_content (column : Column) (bytes : Bytes) :
    (column.fetch (some bytes)).content = bytes :=
  memcpy_zero_take column.memInfo.data bytes

theorem fetch_some_sound (column : Column) (bytes : Bytes) :
    (column.fetch (some bytes)).Sound := by
  simp [Column.Sound, Column.fetch, memcpy]

theorem fetchRow_present_pieces {columns : List Column} {row : List Bytes} :
    (fetchRow columns (present row)).map Column.pieces =
      serial (columns.map Column.heading) row := by
  induction columns generalizing row with
  | nil => rfl
  | cons column rest inductionHypothesis =>
      obtain _ | ⟨bytes, later⟩ := row
      · rfl
      · have here : (column.fetch (some bytes)).pieces = column.heading.type.pieces bytes := by
          rw [Column.pieces, fetch_some_content, Column.fetch_bind]
          rfl
        rw [fetchRow, present, List.map_cons, List.zipWith_cons_cons, List.map_cons, ← fetchRow,
          ← present, inductionHypothesis, here, serial, serial, List.map_cons,
          List.zipWith_cons_cons]

theorem fetchRow_present_sound {columns : List Column} {row : List Bytes} :
    ∀ column ∈ fetchRow columns (present row), column.Sound := by
  intro column membership
  rw [fetchRow, present, List.zipWith_map_right, List.mem_iff_getElem] at membership
  obtain ⟨index, bound, rfl⟩ := membership
  rw [List.getElem_zipWith]
  exact fetch_some_sound _ _

theorem present_length {width : Nat} {rows : List (List Bytes)}
    (lengths : ∀ row ∈ rows, row.length = width) : Rectangular width (rows.map present) := by
  intro row membership
  obtain ⟨bytes, known, rfl⟩ := List.mem_map.mp membership
  rw [present, List.length_map, lengths bytes known]

theorem snapshots_present_sound {columns : List Column} {rows : List (List Bytes)} :
    ∀ column ∈ (snapshots columns (rows.map present)).flatten, column.Sound := by
  induction rows generalizing columns with
  | nil => simp [snapshots]
  | cons row rest inductionHypothesis =>
      intro column membership
      rw [List.map_cons, snapshots, List.flatten_cons, List.mem_append] at membership
      exact membership.elim (fetchRow_present_sound column) (inductionHypothesis column)

theorem snapshots_present_pieces {columns : List Column} {rows : List (List Bytes)}
    (rectangular : Rectangular columns.length (rows.map present)) :
    (snapshots columns (rows.map present)).flatten.map Column.pieces =
      rows.flatMap (serial (columns.map Column.heading)) := by
  induction rows generalizing columns with
  | nil => rfl
  | cons row rest inductionHypothesis =>
      rw [List.map_cons] at rectangular ⊢
      obtain ⟨width, others⟩ := List.forall_mem_cons.mp rectangular
      have next : Rectangular (fetchRow columns (present row)).length (rest.map present) := by
        rw [Rectangular, fetchRow_length width]
        exact others
      rw [snapshots, List.flatten_cons, List.map_append, fetchRow_present_pieces,
        inductionHypothesis next, List.flatMap_cons,
        fetchRow_map Column.heading (fun column value => by cases value <;> rfl) width]

/-- Lua gets the rows as they were fetched, and reads for each column the bytes
that were written for it. -/
def Delivers (boundLength : FieldType → Nat) (fresh : Nat → Nat → UInt8) (fields : List Field)
    (rows : List (List Bytes)) : Prop :=
  ∃ ends, deliver boundLength fresh fields (rows.map present) =
    .ok ((luaRows (fields.map Field.heading) 0 rows, ends), ends)

theorem luaRows_length (headings : List Heading) (key : Nat) (table : List (List Bytes)) :
    (luaRows headings key table).length = table.length := by
  rw [luaRows, List.length_map, List.length_zipIdx]

/-- The loop counter of the reader does not reach `2 ^ 31`. -/
theorem deliver_length {rows : List Row} {found : LuaRows} {readEnds writtenEnds : List Int}
    (delivered : deliver boundLength fresh fields rows = .ok ((found, readEnds), writtenEnds)) :
    found.length < 2 ^ 31 := by
  rw [deliver, Lib.bind_eq_ok] at delivered
  obtain ⟨rs, -, delivered⟩ := delivered
  rw [Lib.bind_eq_ok] at delivered
  obtain ⟨⟨rs', written⟩, -, delivered⟩ := delivered
  rw [Lib.bind_eq_ok] at delivered
  obtain ⟨read, readEq, done⟩ := delivered
  rw [Lib.pure_eq_ok, Prod.mk.injEq] at done
  rw [done.1, ResultSetMysql.buildLuaResult] at readEq
  rw [readRows_length readEq]
  exact toInt_toNat_lt rs'.rowCount

theorem deliver_nil (known : ∀ field ∈ fields, field.Allocates) :
    deliver boundLength fresh fields [] = .ok (([], []), []) := by
  obtain ⟨rs, inited, -, -, rowCount, -, -⟩ :=
    @init_ok boundLength fresh fields known []
  have empty : rs.rowCount = 0 := rowCount
  rw [deliver, inited, Lib.ok_bind, ResultSetMysql.buildBinResult, if_pos empty]
  have read : rs.buildLuaResult = .ok ([], []) := by
    have none : (toInt (0 : Nat)).toNat = 0 := toInt_small (by norm_num)
    rw [ResultSetMysql.buildLuaResult, empty, none, readRows, Lib.pure_eq_ok]
  simp only [pure_bind, read, Lib.ok_bind]
  rfl

/-- A result without NULLs reaches Lua as it was fetched exactly when it is empty
or every type has a case in `BuildLuaResult`, every value is within its buffer,
and the block and its offsets stay within 32 bits. -/
theorem result_delivered_iff (known : ∀ field ∈ fields, field.Allocates) {rows : List (List Bytes)}
    (reported : ∀ row ∈ rows, RowSized (fields.map Field.heading) row) :
    Delivers boundLength fresh fields rows ↔
      rows = [] ∨ rows.length < 2 ^ 31 ∧ (∀ field ∈ fields, field.type.Readable) ∧
        (∀ row ∈ rows, InBuffers fields (present row)) ∧
        Fits (blockSize fields rows.length) 0 (stream fields rows).flatten := by
  obtain rfl | some_row := eq_or_ne rows []
  · simp only [true_or, iff_true]
    exact ⟨[], deliver_nil known⟩
  have lengths : ∀ row ∈ rows, row.length = fields.length := fun row membership => by
    rw [(reported row membership).length, List.length_map]
  have rectangular := present_length lengths
  have wide : Rectangular (bindColumns boundLength fresh 0 fields).length (rows.map present) := by
    rw [bindColumns_length]
    exact rectangular
  have pieces := snapshots_present_pieces wide
  rw [bindColumns_heading, ← stream] at pieces
  have written : (snapshots (bindColumns boundLength fresh 0 fields)
      (rows.map present)).flatten.flatMap Column.pieces = (stream fields rows).flatten := by
    rw [← pieces, List.flatMap_def]
  have ends : Mysql.lengths (snapshots (bindColumns boundLength fresh 0 fields)
      (rows.map present)).flatten = chunkLengths (stream fields rows) := by
    rw [← pieces, chunkLengths, List.map_map]
    rfl
  have count : (rows.map present).length = rows.length := List.length_map _
  constructor
  · rintro ⟨readEnds, delivered⟩
    have few := deliver_length delivered
    rw [luaRows_length] at few
    obtain ⟨inBuffers, -, -, readable, fits, -, -⟩ :=
      (deliver_ok known rfl rectangular (by simpa using some_row) (by rwa [count]) count.symm
        reported fun _ => snapshots_present_sound).mp delivered
    rw [count] at fits
    exact .inr ⟨few, readable, List.forall_mem_map.mp inBuffers, fits⟩
  · intro condition
    obtain ⟨few, readable, inBuffers, fits⟩ := condition.resolve_left some_row
    refine ⟨marks 0 (chunkLengths (stream fields rows)),
      (deliver_ok known rfl rectangular (by simpa using some_row) (by rwa [count]) count.symm
        reported fun _ => snapshots_present_sound).mpr ?_⟩
    rw [written, ends, count]
    refine ⟨List.forall_mem_map.mpr inBuffers, fits, rfl, readable, fits, ?_, rfl⟩
    rw [memcpy, List.take_zero, List.nil_append]
    exact List.prefix_append _ _

end

/-- Columns of an `int`, a `varchar` and a `tinyint unsigned`, and two rows. -/
def sceneFields : List Field :=
  [⟨"type_idx", .long, 11, false⟩, ⟨"scene_name", .varString, 36, false⟩,
    ⟨"rule", .tiny, 3, true⟩]

def sceneRows : List (List Bytes) :=
  [[[101, 0, 0, 0], [107, 111, 102], [200]], [[255, 255, 255, 255], [], [0]]]

theorem sceneFields_known : ∀ field ∈ sceneFields, field.Allocates := by
  simp only [sceneFields, List.forall_mem_cons, List.not_mem_nil, false_imp_iff, implies_true,
    and_true]
  exact ⟨⟨_, rfl⟩, ⟨_, rfl⟩, ⟨_, rfl⟩⟩

instance Heading.Sized.decidable (heading : Heading) (bytes : Bytes) :
    Decidable (heading.Sized bytes) :=
  match known : heading.type.fixedWidth with
  | none => .isTrue fun _ found => nomatch known.symm.trans found
  | some width =>
      if same : bytes.length = width then
        .isTrue fun _ found => same.trans (Option.some.inj (known.symm.trans found))
      else .isFalse fun sized => same (sized width known)

instance RowSized.decidable (headings : List Heading) (row : List Bytes) :
    Decidable (RowSized headings row) :=
  decidable_of_iff (row.length = headings.length ∧ ∀ cell ∈ headings.zip row, cell.1.Sized cell.2)
    ⟨fun known => ⟨known.1, known.2⟩, fun known => ⟨known.length, known.sized⟩⟩

instance InBuffers.decidable (fields : List Field) (row : Row) :
    Decidable (InBuffers fields row) :=
  decidable_of_iff (∀ cell ∈ fields.zip row,
      cell.2.all (fun bytes => bytes.length ≤ cell.1.bufferLength) = true) (by
    simp only [InBuffers, Option.all_eq_true, decide_eq_true_eq])

theorem result_delivered_scene : Delivers (fun _ => 0) (fun _ _ => 0) sceneFields sceneRows := by
  exact (result_delivered_iff sceneFields_known (by decide)).mpr
    (.inr ⟨by decide, by decide, by decide, by decide⟩)

set_option synthInstance.maxSize 1000 in
/-- A `bigint` is bound and written, but the reader has no case for it. -/
theorem bigint_undelivered :
    let fields : List Field := [⟨"id", .longlong, 20, false⟩]
    let rows : List (List Bytes) := [[[5, 0, 0, 0, 0, 0, 0, 0]]]
    (∀ field ∈ fields, field.Allocates) ∧
      (∀ row ∈ rows, RowSized (fields.map Field.heading) row) ∧
      deliver (fun _ => 0) (fun _ _ => 0) fields (rows.map present) = .error .assertFailed ∧
      ¬ Delivers (fun _ => 0) (fun _ _ => 0) fields rows := by
  intro fields rows
  have failed : deliver (fun _ => 0) (fun _ _ => 0) fields (rows.map present) =
      .error .assertFailed := by decide +kernel
  refine ⟨?_, by decide, failed, ?_⟩
  · simp only [fields, List.forall_mem_cons, List.not_mem_nil, false_imp_iff, implies_true,
      and_true]
    exact ⟨_, rfl⟩
  · rintro ⟨ends, delivered⟩
    rw [failed] at delivered
    exact nomatch delivered

end CrossOver.Engine.Mysql
