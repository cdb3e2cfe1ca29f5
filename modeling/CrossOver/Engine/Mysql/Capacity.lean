import CrossOver.Engine.Mysql.Results
import Mathlib.Algebra.Order.BigOperators.Group.List

/-!
# The block of a result set

`BuildBinResult` allocates `row_size_ * row_count_` bytes and writes every row
behind the one before.  Both factors and the product are numbers modulo `2 ^ 32`,
and the offset is an `int`.  The columns and the row count decide alone whether
every result that libmysql may return fits.
-/

namespace CrossOver.Engine.Mysql

open CrossOver.Lib

structure Promised (boundLength : FieldType → Nat) (fields : List Field) (count : Nat)
    (rows : List Row) : Prop where
  bound : ∀ field ∈ fields, boundLength field.type ≤ field.bufferLength
  width : Rectangular fields.length rows
  inBuffers : ∀ row ∈ rows, InBuffers fields row
  count : rows.length ≤ count

/-- The sums of the lengths, none of them brought into the range of an `int`. -/
def totals : Nat → List Nat → List Int
  | _, [] => []
  | offset, length :: rest => ((offset + length : Nat) : Int) :: totals (offset + length) rest

/-- Every write is inside the block, and the offset is always the number of bytes
written so far. -/
def Contained (boundLength : FieldType → Nat) (fresh : Nat → Nat → UInt8) (fields : List Field)
    (count : Nat) (rows : List Row) : Prop :=
  ∃ rs rs' ends, ResultSetMysql.init boundLength fresh fields rows = .ok rs ∧
    { rs with rowCount := count }.buildBinResult (fresh fields.length) = .ok (rs', ends) ∧
    ends = totals 0 (lengths (snapshots rs.columns rs.stmt).flatten)

theorem marks_eq_totals {offset : Nat} {sizes : List Nat} (small : offset + sizes.sum < 2 ^ 31) :
    marks offset sizes = totals offset sizes := by
  induction sizes generalizing offset with
  | nil => rfl
  | cons length rest inductionHypothesis =>
      rw [List.sum_cons] at small
      have here : toInt ((offset + length : Nat) : Int) = ((offset + length : Nat) : Int) := by
        rw [toInt_natCast (by omega), if_pos (by omega)]
      rw [marks, totals, here, inductionHypothesis (by omega)]

theorem sum_lt_of_marks_eq_totals {offset : Nat} {sizes : List Nat} (some_size : sizes ≠ [])
    (same : marks offset sizes = totals offset sizes) : offset + sizes.sum < 2 ^ 31 := by
  induction sizes generalizing offset with
  | nil => exact absurd rfl some_size
  | cons length rest inductionHypothesis =>
      rw [marks, totals, List.cons.injEq] at same
      rw [List.sum_cons, ← Nat.add_assoc]
      cases rest with
      | nil =>
          have bound := toInt_lt ((offset + length : Nat) : Int)
          rw [same.1] at bound
          simp only [List.sum_nil]
          omega
      | cons next later => exact inductionHypothesis (List.cons_ne_nil _ _) same.2

theorem fits_of_length {capacity offset : Nat} {pieces : List Bytes} (small : capacity < 2 ^ 31)
    (room : offset + pieces.flatten.length ≤ capacity) : Fits capacity offset pieces := by
  induction pieces generalizing offset with
  | nil => exact trivial
  | cons piece rest inductionHypothesis =>
      rw [List.flatten_cons, List.length_append] at room
      refine ⟨?_, inductionHypothesis (by omega)⟩
      obtain rfl | nonempty := eq_or_ne piece []
      · exact .inl rfl
      · have positive := List.length_pos_iff.mpr nonempty
        exact .inr ⟨by omega, by omega⟩

namespace Column

structure Bounded (column : Column) : Prop where
  data : column.memInfo.data.length = column.bind.bufferLength
  len : column.memInfo.len ≤ column.bind.bufferLength

theorem Bounded.sound {column : Column} (bounded : column.Bounded) : column.Sound := by
  rw [Sound, bounded.data]
  exact bounded.len

theorem Bounded.pieces_length {column : Column} (bounded : column.Bounded) :
    column.pieces.flatten.length ≤ column.rowBytes := by
  have length := bounded.sound.content_length
  have bound := bounded.len
  unfold pieces FieldType.pieces rowBytes
  split_ifs <;> simp [length] <;> omega

theorem Bounded.fetch {column : Column} (bounded : column.Bounded) {value : Option Bytes}
    (inBuffer : ∀ bytes, value = some bytes → bytes.length ≤ column.bind.bufferLength) :
    (column.fetch value).Bounded := by
  cases value with
  | none => exact ⟨bounded.data, bounded.len⟩
  | some bytes =>
      have short := inBuffer bytes rfl
      refine ⟨?_, short⟩
      rw [Column.fetch_bind, ← bounded.data]
      exact memcpy_length (by rw [Nat.zero_add, bounded.data]; exact short)

end Column

section

variable {columns : List Column} {row : Row} {rows : List Row}

theorem fetchRow_bounded (bounded : ∀ column ∈ columns, column.Bounded)
    (accepts : Accepts (columns.map Column.bind) row) :
    ∀ column ∈ fetchRow columns row, column.Bounded := by
  induction columns generalizing row with
  | nil => exact fun column membership => absurd membership List.not_mem_nil
  | cons column rest inductionHypothesis =>
      cases row with
      | nil => exact fun column membership => absurd membership List.not_mem_nil
      | cons value later =>
          rw [List.forall_mem_cons] at bounded
          simp only [Accepts, List.map_cons, List.zip_cons_cons, List.forall_mem_cons] at accepts
          rw [fetchRow, List.zipWith_cons_cons, List.forall_mem_cons]
          exact ⟨bounded.1.fetch accepts.1, inductionHypothesis bounded.2 accepts.2⟩

theorem fetchRow_rowBytes (width : row.length = columns.length) :
    (fetchRow columns row).map Column.rowBytes = columns.map Column.rowBytes :=
  fetchRow_map Column.rowBytes (fun column value => by simp [Column.rowBytes]) width

theorem lengths_sum_le (bounded : ∀ column ∈ columns, column.Bounded) :
    (lengths columns).sum ≤ (columns.map Column.rowBytes).sum :=
  List.sum_le_sum fun column membership => (bounded column membership).pieces_length

/-- What is written stays within the row size for each row. -/
theorem snapshots_bounded (bounded : ∀ column ∈ columns, column.Bounded)
    (rectangular : Rectangular columns.length rows)
    (accepts : ∀ row ∈ rows, Accepts (columns.map Column.bind) row) :
    (∀ column ∈ (snapshots columns rows).flatten, column.Bounded) ∧
      (lengths (snapshots columns rows).flatten).sum ≤
        (columns.map Column.rowBytes).sum * rows.length := by
  induction rows generalizing columns with
  | nil => exact ⟨fun column membership => absurd membership List.not_mem_nil, Nat.zero_le _⟩
  | cons row rest inductionHypothesis =>
      obtain ⟨width, others⟩ := List.forall_mem_cons.mp rectangular
      obtain ⟨here, behind⟩ := List.forall_mem_cons.mp accepts
      have fetched := fetchRow_bounded bounded here
      have size := lengths_sum_le fetched
      rw [fetchRow_rowBytes width] at size
      obtain ⟨later, total⟩ := inductionHypothesis fetched
        (by rw [Rectangular, fetchRow_length width]; exact others)
        (by rw [fetchRow_map Column.bind Column.fetch_bind width]; exact behind)
      rw [fetchRow_rowBytes width] at total
      rw [snapshots, List.flatten_cons]
      refine ⟨List.forall_mem_append.mpr ⟨fetched, later⟩, ?_⟩
      rw [lengths, List.map_append, List.sum_append, ← lengths, ← lengths, List.length_cons,
        Nat.mul_succ]
      omega

end

section

variable {boundLength : FieldType → Nat} {fresh : Nat → Nat → UInt8} {fields : List Field}
  {count : Nat} {rows : List Row}

theorem bindColumns_bounded (bound : ∀ field ∈ fields, boundLength field.type ≤ field.bufferLength)
    (index : Nat) : ∀ column ∈ bindColumns boundLength fresh index fields, column.Bounded := by
  induction fields generalizing index with
  | nil => exact fun column membership => absurd membership List.not_mem_nil
  | cons field rest inductionHypothesis =>
      obtain ⟨here, behind⟩ := List.forall_mem_cons.mp bound
      rw [bindColumns, List.forall_mem_cons]
      refine ⟨⟨?_, here⟩, inductionHypothesis behind (index + 1)⟩
      simp [Field.column, Field.bind, Column.bound]

theorem bindColumns_rowBytes (index : Nat) :
    (bindColumns boundLength fresh index fields).map Column.rowBytes =
      fields.map Field.rowBytes :=
  bindColumns_map Column.rowBytes Field.rowBytes (fun _ _ => rfl) index

theorem init_rowSize (known : ∀ field ∈ fields, field.Allocates) {rs : ResultSetMysql}
    (inited : ResultSetMysql.init boundLength fresh fields rows = .ok rs) (count : Nat) :
    rs.rowSize * count % 2 ^ 32 = (fields.map Field.rowBytes).sum * count % 2 ^ 32 := by
  obtain ⟨columns, allocated, -, sizes⟩ := allocateColumns_ok boundLength fresh known 0
  rw [ResultSetMysql.init, allocated] at inited
  obtain rfl := Lib.pure_eq_ok.mp inited
  have size := foldl_rowBytes columns 0
  rw [Nat.zero_add, sizes] at size
  rw [← Nat.mod_mul_mod, size, Nat.mod_mul_mod]

section Promised

variable {columns : List Column} (promised : Promised boundLength fields count rows)
  (bound : columns = bindColumns boundLength fresh 0 fields)
include promised bound

theorem Promised.rectangular : Rectangular columns.length rows := by
  rw [bound, bindColumns_length]
  exact promised.width

theorem Promised.accepts : ∀ row ∈ rows, Accepts (columns.map Column.bind) row := by
  intro row membership
  rw [bound, accepts_iff]
  exact promised.inBuffers row membership

theorem Promised.snapshots :
    (∀ column ∈ (snapshots columns rows).flatten, column.Bounded) ∧
      (lengths (snapshots columns rows).flatten).sum ≤
        (fields.map Field.rowBytes).sum * rows.length := by
  have bounded : ∀ column ∈ columns, column.Bounded := by
    rw [bound]
    exact bindColumns_bounded promised.bound 0
  have written := snapshots_bounded bounded (promised.rectangular bound) (promised.accepts bound)
  have sizes : columns.map Column.rowBytes = fields.map Field.rowBytes := by
    rw [bound, bindColumns_rowBytes]
  rwa [sizes] at written

end Promised

/-- When the statement was initialised and the promises hold, `BuildBinResult` keeps
to the block and its offsets exactly if all pieces fit. -/
theorem contained_iff (known : ∀ field ∈ fields, field.Allocates) {rs : ResultSetMysql}
    (inited : ResultSetMysql.init boundLength fresh fields rows = .ok rs)
    (columns : rs.columns = bindColumns boundLength fresh 0 fields) (stmt : rs.stmt = rows)
    (promised : Promised boundLength fields count rows) (nonzero : count ≠ 0) :
    Contained boundLength fresh fields count rows ↔
      Fits ((fields.map Field.rowBytes).sum * count % 2 ^ 32) 0
          ((snapshots rs.columns rows).flatten.flatMap Column.pieces) ∧
        marks 0 (lengths (snapshots rs.columns rows).flatten) =
          totals 0 (lengths (snapshots rs.columns rows).flatten) := by
  have bounded := (promised.snapshots columns).1
  subst stmt
  have built := fun rs' ends => @buildBinResult_ok { rs with rowCount := count } rs'
    (fresh fields.length) ends (promised.rectangular columns) nonzero
    fun _ column membership => (bounded column membership).sound
  simp only [init_rowSize known inited] at built
  constructor
  · rintro ⟨rs₁, rs', ends, inited₁, done, exact⟩
    obtain rfl := Except.ok.inj (inited₁.symm.trans inited)
    obtain ⟨-, fits, -, marked⟩ := (built rs' ends).mp done
    exact ⟨fits, marked.symm.trans exact⟩
  · rintro ⟨fits, same⟩
    exact ⟨rs, _, _, inited, (built _ _).mpr
      ⟨promised.accepts columns, fits, rfl, rfl⟩, same⟩

/-- A result within the promises fits if the full rows do. -/
theorem contained_of_small (known : ∀ field ∈ fields, field.Allocates)
    (promised : Promised boundLength fields count rows)
    (small : (fields.map Field.rowBytes).sum * count < 2 ^ 31) :
    Contained boundLength fresh fields count rows := by
  obtain ⟨rs, inited, columns, stmt, -, -, -⟩ := @init_ok boundLength fresh fields known rows
  obtain rfl | nonzero := eq_or_ne count 0
  · obtain rfl : rows = [] := List.length_eq_zero_iff.mp (Nat.le_zero.mp promised.count)
    exact ⟨rs, { rs with rowCount := 0 }, [], inited, rfl, by rw [stmt]; rfl⟩
  rw [contained_iff known inited columns stmt promised nonzero]
  have sum := (promised.snapshots columns).2
  have most := Nat.mul_le_mul_left (fields.map Field.rowBytes).sum promised.count
  refine ⟨?_, marks_eq_totals (by omega)⟩
  rw [Nat.mod_eq_of_lt (by omega)]
  refine fits_of_length small ?_
  rw [← lengths_sum]
  omega

def fullRow (fields : List Field) : List Bytes :=
  fields.map fun field => List.replicate field.bufferLength 0

theorem fullRow_inBuffers : InBuffers fields (present (fullRow fields)) := by
  induction fields with
  | nil => exact fun cell membership => absurd membership List.not_mem_nil
  | cons field rest inductionHypothesis =>
      simp only [InBuffers, present, fullRow, List.map_cons, List.zip_cons_cons,
        List.forall_mem_cons, Option.some.injEq]
      refine ⟨?_, inductionHypothesis⟩
      rintro bytes rfl
      rw [List.length_replicate]

theorem serial_fullRow :
    ((serial (fields.map Field.heading) (fullRow fields)).map fun pieces =>
      pieces.flatten.length) = fields.map Field.rowBytes := by
  induction fields with
  | nil => rfl
  | cons field rest inductionHypothesis =>
      rw [List.map_cons, fullRow, List.map_cons, ← fullRow, serial_cons, List.map_cons,
        inductionHypothesis, List.map_cons]
      congr 1
      unfold FieldType.pieces Field.rowBytes Field.heading
      split_ifs <;> simp

theorem fullRows_sum (count : Nat) :
    (((List.replicate count (fullRow fields)).flatMap (serial (fields.map Field.heading))).map
      fun pieces => pieces.flatten.length).sum = (fields.map Field.rowBytes).sum * count := by
  induction count with
  | zero => rfl
  | succ count inductionHypothesis =>
      rw [List.replicate_succ, List.flatMap_cons, List.map_append, List.sum_append,
        inductionHypothesis, serial_fullRow, Nat.mul_succ, Nat.add_comm]

theorem fullRows_promised (count : Nat) :
    Promised (fun _ => 0) fields count ((List.replicate count (fullRow fields)).map present) where
  bound _ _ := Nat.zero_le _
  width := present_length fun row membership => by
    rw [List.eq_of_mem_replicate membership, fullRow, List.length_map]
  inBuffers := List.forall_mem_map.mpr fun row membership => by
    rw [List.eq_of_mem_replicate membership]
    exact fullRow_inBuffers
  count := by simp

/-- The full rows of a row size that is too large do not fit. -/
theorem small_of_contained (known : ∀ field ∈ fields, field.Allocates)
    (contained : Contained (fun _ => 0) (fun _ _ => 0) fields count
      ((List.replicate count (fullRow fields)).map present)) :
    (fields.map Field.rowBytes).sum * count < 2 ^ 31 := by
  obtain empty | positive := Nat.eq_zero_or_pos ((fields.map Field.rowBytes).sum * count)
  · omega
  have nonzero : count ≠ 0 := by
    rintro rfl
    omega
  have promised := @fullRows_promised fields count
  obtain ⟨rs, inited, columns, stmt, -, -, -⟩ := @init_ok (fun _ => 0) (fun _ _ => 0) fields known
    ((List.replicate count (fullRow fields)).map present)
  obtain ⟨-, same⟩ := (contained_iff known inited columns stmt promised nonzero).mp contained
  have pieces := snapshots_present_pieces (promised.rectangular columns)
  have sum := @fullRows_sum fields count
  rw [columns] at same pieces
  rw [bindColumns_heading] at pieces
  rw [← pieces, List.map_map] at sum
  have size : (lengths (snapshots (bindColumns (fun _ => 0) (fun _ _ => 0) 0 fields)
      ((List.replicate count (fullRow fields)).map present)).flatten).sum =
      (fields.map Field.rowBytes).sum * count := sum
  have some_size : lengths (snapshots (bindColumns (fun _ => 0) (fun _ _ => 0) 0 fields)
      ((List.replicate count (fullRow fields)).map present)).flatten ≠ [] := by
    intro none
    rw [none, List.sum_nil] at size
    omega
  have small := sum_lt_of_marks_eq_totals some_size same
  omega

/-- Every result that libmysql may return for the columns and the row count is
written inside its block, by an offset that does not overflow, exactly if the rows
would take less than `2 ^ 31` bytes with every buffer full. -/
theorem contained_iff_small (known : ∀ field ∈ fields, field.Allocates) (count : Nat) :
    (∀ boundLength fresh rows, Promised boundLength fields count rows →
      Contained boundLength fresh fields count rows) ↔
      (fields.map Field.rowBytes).sum * count < 2 ^ 31 := by
  constructor
  · intro contained
    exact small_of_contained known (contained _ _ _ (fullRows_promised count))
  · intro small boundLength fresh rows promised
    exact contained_of_small known promised small

end

theorem contained_scene :
    Contained (fun _ => 0) (fun _ _ => 0) sceneFields 2 (sceneRows.map present) := by
  refine (contained_iff_small sceneFields_known 2).mpr (by decide) _ _ _ ?_
  exact ⟨fun _ _ => Nat.zero_le _, by simp [Rectangular, sceneRows, sceneFields, present],
    by decide, by decide⟩

/-- One row of a column of type `json`, whose length the server gives as `2 ^ 32 - 1`:
the row size is 3 bytes, and the length in front of the value takes 4. -/
theorem json_uncontained :
    let fields : List Field := [⟨"info", .json, 4294967295, false⟩]
    let rows : List Row := [[some [123, 125]]]
    (∀ field ∈ fields, field.Allocates) ∧ Promised (fun _ => 0) fields 1 rows ∧
      ¬ Contained (fun _ => 0) (fun _ _ => 0) fields 1 rows := by
  intro fields rows
  have known : ∀ field ∈ fields, field.Allocates := by
    simp only [fields, List.forall_mem_cons, List.not_mem_nil, false_imp_iff, implies_true,
      and_true]
    exact ⟨_, rfl⟩
  have promised : Promised (fun _ => 0) fields 1 rows :=
    ⟨fun _ _ => Nat.zero_le _, by simp [rows, fields, Rectangular], by decide, by decide⟩
  refine ⟨known, promised, fun contained => ?_⟩
  obtain ⟨rs, inited, columns, stmt, -, -, -⟩ :=
    @init_ok (fun _ => 0) (fun _ _ => 0) fields known rows
  obtain ⟨fits, -⟩ := (contained_iff known inited columns stmt promised one_ne_zero).mp contained
  have rectangular : Rectangular rs.columns.length (([[[123, 125]]] : List (List Bytes)).map present) :=
    promised.rectangular columns
  have pieces := snapshots_present_pieces rectangular
  rw [columns, bindColumns_heading] at pieces
  rw [columns, List.flatMap_def] at fits
  have written : Fits ((fields.map Field.rowBytes).sum * 1 % 2 ^ 32) 0
      (([[[123, 125]]] : List (List Bytes)).flatMap
        (serial (fields.map Field.heading))).flatten := by
    rw [← pieces]
    exact fits
  exact absurd written (by decide +kernel)

end CrossOver.Engine.Mysql
