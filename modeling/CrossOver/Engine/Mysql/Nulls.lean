import CrossOver.Engine.Mysql.Results
import CrossOver.Lib.Streams
import Mathlib.Data.List.Forall2

/-!
# NULLs on the asynchronous path

The getters look at `is_null`, and the writer does not: for a NULL it serialises
whatever the last row with a value left in the buffer.  `held` is that value for
each column.  A NULL does no harm where it equals what the getter returns, and
one NULL that differs is enough for Lua to get another table, since the bytes
behind it cannot make up for it.
-/

namespace CrossOver.Engine.Mysql

open CrossOver.Lib

namespace Heading

def zeroBytes (heading : Heading) : Bytes :=
  if heading.type.isString then [] else List.replicate (heading.type.fixedWidth.getD 0) 0

def cellBytes (heading : Heading) : Option Bytes → Bytes
  | none => heading.zeroBytes
  | some bytes => bytes

/-- What the buffer holds is what a NULL should be. -/
def Harmless (heading : Heading) (held : Option Bytes) : Prop :=
  held.getD [] = heading.zeroBytes

instance (heading : Heading) (held : Option Bytes) : Decidable (heading.Harmless held) := by
  unfold Harmless
  infer_instance

end Heading

def cellRow (headings : List Heading) (row : Row) : List Bytes :=
  List.zipWith Heading.cellBytes headings row

theorem cellRow_cons (heading : Heading) (headings : List Heading) (value : Option Bytes)
    (row : Row) :
    cellRow (heading :: headings) (value :: row) =
      heading.cellBytes value :: cellRow headings row := rfl

def cellRows (headings : List Heading) (rows : List Row) : List (List Bytes) :=
  rows.map (cellRow headings)

theorem cellRows_cons (headings : List Heading) (row : Row) (rows : List Row) :
    cellRows headings (row :: rows) = cellRow headings row :: cellRows headings rows := rfl

/-- The last value of a column so far. -/
def hold (held : Heading × Option Bytes) (value : Option Bytes) : Heading × Option Bytes :=
  (held.1, value <|> held.2)

/-- Every NULL comes when the buffer of its column holds what a NULL should be. -/
def RepeatsZero : List (Heading × Option Bytes) → List Row → Prop
  | _, [] => True
  | held, row :: rest =>
      (∀ cell ∈ held.zip row, cell.2 = none → cell.1.1.Harmless cell.1.2) ∧
        RepeatsZero (List.zipWith hold held row) rest

instance RepeatsZero.decidable :
    ∀ (held : List (Heading × Option Bytes)) (rows : List Row), Decidable (RepeatsZero held rows)
  | _, [] => .isTrue trivial
  | held, row :: rest =>
      have := RepeatsZero.decidable (List.zipWith hold held row) rest
      inferInstanceAs (Decidable (_ ∧ _))

/-- The getter for the type of the column.  The source has none for `double`; it is
given the behaviour of the others. -/
def Column.getter (column : Column) : LuaValue :=
  match column.bind.bufferType, column.bind.isUnsigned with
  | .tiny, false => column.getInt8
  | .tiny, true => column.getUInt8
  | .short, false => column.getInt16
  | .short, true => column.getUInt16
  | .long, false => column.getInt32
  | .long, true => column.getUInt32
  | .float, _ => column.getFloat
  | .double, _ => column.getFixed 8 (.double 0) fun bytes => .double (leValue bytes)
  | _, _ => column.getString

/-- What the getters return when they are called after each `NextRow`. -/
def getterRows (columns : List Column) (rows : List Row) : LuaRows :=
  ((snapshots columns rows).zipIdx 1).map fun entry =>
    (entry.2, entry.1.map fun column => (column.memInfo.columnName, column.getter))

def AgreesWithGetters (boundLength : FieldType → Nat) (fresh : Nat → Nat → UInt8)
    (fields : List Field) (rows : List Row) : Prop :=
  ∃ rs readEnds writtenEnds, ResultSetMysql.init boundLength fresh fields rows = .ok rs ∧
    deliver boundLength fresh fields rows =
      .ok ((getterRows rs.columns rs.stmt, readEnds), writtenEnds)

structure RowReported (headings : List Heading) (row : Row) : Prop where
  length : row.length = headings.length
  sized : ∀ cell ∈ headings.zip row, ∀ bytes, cell.2 = some bytes → cell.1.Sized bytes

section

variable {heading : Heading} {column : Column} {value held : Option Bytes}

/-- What is known of a column: its buffer has the last value, or nothing but the
bytes it was allocated with, which satisfy `Junk`. -/
structure Carries (Junk : UInt8 → Prop) (heading : Heading) (held : Option Bytes)
    (column : Column) : Prop where
  headed : column.heading = heading
  sound : column.Sound
  last : ∀ bytes, held = some bytes → column.content = bytes ∧ heading.Sized bytes
  junk : held = none → (∀ byte ∈ column.content, Junk byte) ∧
    (heading.type.isString = true → column.content = []) ∧
    column.content.length ≤ heading.zeroBytes.length

theorem Carries.fetch {Junk : UInt8 → Prop} (carries : Carries Junk heading held column)
    (sized : ∀ bytes, value = some bytes → heading.Sized bytes) :
    Carries Junk heading (value <|> held) (column.fetch value) := by
  cases value with
  | none => exact ⟨carries.headed, carries.sound, carries.last, carries.junk⟩
  | some bytes =>
      refine ⟨carries.headed, fetch_some_sound column bytes, ?_, nofun⟩
      intro other same
      obtain rfl := Option.some.inj same
      exact ⟨fetch_some_content column _, sized _ rfl⟩

theorem Carries.content {Junk : UInt8 → Prop} (carries : Carries Junk heading held column)
    (harmless : value = none → heading.Harmless held) :
    (column.fetch value).content = heading.cellBytes value := by
  cases value with
  | some bytes => exact fetch_some_content column bytes
  | none =>
      have wanted := harmless rfl
      cases held with
      | some bytes => exact (carries.last bytes rfl).1.trans wanted
      | none =>
          have empty : column.content.length = 0 := by
            have bound := (carries.junk rfl).2.2
            rw [← wanted] at bound
            exact Nat.le_zero.mp bound
          exact (List.length_eq_zero_iff.mp empty).trans wanted

def streamCell (column : Column) (value : Option Bytes) : StreamCell UInt8 where
  expected := (column.heading.type.pieces (column.heading.cellBytes value)).flatten
  written := column.pieces.flatten

theorem zeroBytes_positive (readable : heading.type.Readable)
    (fixed : heading.type.isString = false) :
    ∃ width, 0 < width ∧ heading.type.fixedWidth = some width ∧
      heading.zeroBytes = List.replicate width 0 := by
  obtain ⟨name, type, isUnsigned⟩ := heading
  dsimp only at readable fixed
  rw [Heading.zeroBytes, fixed]
  cases type
  case tiny => exact ⟨1, by decide, rfl, rfl⟩
  case short => exact ⟨2, by decide, rfl, rfl⟩
  case long => exact ⟨4, by decide, rfl, rfl⟩
  case float => exact ⟨4, by decide, rfl, rfl⟩
  case double => exact ⟨8, by decide, rfl, rfl⟩
  case string | varString | json => exact absurd fixed (by decide)
  all_goals exact absurd readable (by decide)

/-- A length that is not zero has a byte that is not zero. -/
theorem leBytes_nonzero {value : Nat} (positive : 0 < value) (small : value < 256 ^ 4) :
    ∃ byte ∈ leBytes 4 value, byte ≠ 0 := by
  by_contra none
  push Not at none
  have zeros : leBytes 4 value = leBytes 4 0 :=
    (List.eq_replicate_of_mem none).trans (by rw [leBytes_length]; rfl)
  have read := congrArg leValue zeros
  rw [leValue_leBytes small, leValue_leBytes (by norm_num)] at read
  omega

theorem exists_nonzero {bytes : Bytes} {width : Nat} (length : bytes.length = width)
    (different : bytes ≠ List.replicate width 0) : ∃ byte ∈ bytes, byte ≠ 0 := by
  by_contra none
  push Not at none
  exact different (length ▸ List.eq_replicate_of_mem none)

theorem Carries.blurred (carries : Carries (· ≠ 0) heading held column)
    (readable : heading.type.Readable) (small : column.content.length < 2 ^ 32)
    (harmful : ¬ heading.Harmless held) :
    (streamCell (column.fetch none) none).Blurred 0 := by
  have sameHeading : (column.fetch none).heading = heading := carries.headed
  have sameContent : (column.fetch none).content = column.content := rfl
  have sameType : (column.fetch none).bind.bufferType = heading.type :=
    congrArg Heading.type carries.headed
  rw [streamCell, Column.pieces, sameHeading, sameContent, sameType, Heading.cellBytes]
  cases string : heading.type.isString with
  | true =>
      have zero : heading.zeroBytes = [] := by rw [Heading.zeroBytes, string]; rfl
      obtain ⟨bytes, rfl⟩ : ∃ bytes, held = some bytes := by
        cases held with
        | none => exact absurd zero.symm harmful
        | some bytes => exact ⟨bytes, rfl⟩
      have content := (carries.last bytes rfl).1
      have nonempty : bytes ≠ [] := fun empty => harmful (empty.trans zero.symm)
      rw [content] at small
      simp only [FieldType.pieces, string, if_true, zero, content, List.flatten_cons,
        List.flatten_nil, List.append_nil, List.length_nil]
      refine ⟨⟨4, by norm_num, rfl⟩, .inr ?_⟩
      obtain ⟨byte, membership, different⟩ :=
        leBytes_nonzero (List.length_pos_iff.mpr nonempty) small
      refine ⟨byte, ?_, different⟩
      rw [leBytes_length, List.take_left' (leBytes_length _ _)]
      exact membership
  | false =>
      obtain ⟨width, positive, fixedWidth, zero⟩ := zeroBytes_positive readable string
      simp only [FieldType.pieces, string, Bool.false_eq_true, if_false, zero, List.flatten_cons,
        List.flatten_nil, List.append_nil]
      refine ⟨⟨width, positive, rfl⟩, ?_⟩
      rw [List.length_replicate]
      cases held with
      | none =>
          obtain ⟨junk, -, bound⟩ := carries.junk rfl
          rw [zero, List.length_replicate] at bound
          rw [List.take_of_length_le bound]
          obtain empty | nonempty := List.eq_nil_or_concat column.content
          · exact .inl empty
          · obtain ⟨front, byte, split⟩ := nonempty
            have membership : byte ∈ column.content := by simp [split]
            exact .inr ⟨byte, membership, junk byte membership⟩
      | some bytes =>
          obtain ⟨content, sized⟩ := carries.last bytes rfl
          have length := sized width fixedWidth
          rw [content, List.take_of_length_le length.le]
          exact .inr (exists_nonzero length fun same => harmful (same.trans zero.symm))

theorem Carries.cell (carries : Carries (· ≠ 0) heading held column)
    (readable : heading.type.Readable) (small : (column.fetch value).content.length < 2 ^ 32) :
    (value = none → heading.Harmless held) ∧ (streamCell (column.fetch value) value).Agrees ∨
      (streamCell (column.fetch value) value).Blurred 0 := by
  by_cases harmless : value = none → heading.Harmless held
  · refine .inl ⟨harmless, ?_⟩
    have sameType : (column.fetch value).bind.bufferType = heading.type := by
      rw [Column.fetch_bind]
      exact congrArg Heading.type carries.headed
    have sameHeading : (column.fetch value).heading = heading := by
      rw [← carries.headed]
      cases value <;> rfl
    rw [StreamCell.Agrees, streamCell, Column.pieces, carries.content harmless, sameType,
      sameHeading]
  · rw [Classical.not_imp] at harmless
    obtain ⟨rfl, harmful⟩ := harmless
    exact .inr (carries.blurred readable small harmful)

end

section

variable {held : List (Heading × Option Bytes)} {columns : List Column} {row : Row}
  {rows : List Row}

/-- `Carries` for every column. -/
def Carried (Junk : UInt8 → Prop) (held : List (Heading × Option Bytes))
    (columns : List Column) : Prop :=
  List.Forall₂ (fun known column => Carries Junk known.1 known.2 column) held columns

theorem RowReported.tail {heading : Heading} {headings : List Heading} {value : Option Bytes}
    (reported : RowReported (heading :: headings) (value :: row)) :
    (∀ bytes, value = some bytes → heading.Sized bytes) ∧ RowReported headings row := by
  have sized := reported.sized
  rw [List.zip_cons_cons, List.forall_mem_cons] at sized
  exact ⟨sized.1, by simpa using reported.length, sized.2⟩

theorem hold_headings (length : row.length = held.length) :
    (List.zipWith hold held row).map Prod.fst = held.map Prod.fst := by
  induction held generalizing row with
  | nil => rfl
  | cons known rest inductionHypothesis =>
      obtain _ | ⟨value, later⟩ := row
      · exact absurd length (by simp)
      · rw [List.zipWith_cons_cons, List.map_cons, inductionHypothesis (by simpa using length)]
        rfl

theorem Carried.fetchRow {Junk : UInt8 → Prop} (carried : Carried Junk held columns)
    (reported : RowReported (held.map Prod.fst) row) :
    Carried Junk (List.zipWith hold held row) (fetchRow columns row) := by
  induction carried generalizing row with
  | nil => exact .nil
  | cons first rest inductionHypothesis =>
      obtain _ | ⟨value, later⟩ := row
      · exact absurd reported.length (by simp)
      · obtain ⟨sized, others⟩ := reported.tail
        exact .cons (first.fetch sized) (inductionHypothesis others)

theorem Carried.sound {Junk : UInt8 → Prop} (carried : Carried Junk held columns) :
    ∀ column ∈ columns, column.Sound := by
  induction carried with
  | nil => simp
  | cons first rest inductionHypothesis =>
      exact List.forall_mem_cons.mpr ⟨first.sound, inductionHypothesis⟩

theorem Carried.pieces {Junk : UInt8 → Prop} (carried : Carried Junk held columns)
    (length : row.length = held.length)
    (harmless : ∀ cell ∈ held.zip row, cell.2 = none → cell.1.1.Harmless cell.1.2) :
    (Mysql.fetchRow columns row).map Column.pieces =
      serial (held.map Prod.fst) (cellRow (held.map Prod.fst) row) := by
  induction carried generalizing row with
  | nil => rfl
  | @cons known column _ _ first rest inductionHypothesis =>
      obtain _ | ⟨value, later⟩ := row
      · exact absurd length (by simp)
      · rw [List.zip_cons_cons, List.forall_mem_cons] at harmless
        have here : (column.fetch value).pieces =
            known.1.type.pieces (known.1.cellBytes value) := by
          rw [Column.pieces, first.content harmless.1, Column.fetch_bind, ← first.headed]
          rfl
        have others := inductionHypothesis (by simpa using length) harmless.2
        rw [Mysql.fetchRow, List.zipWith_cons_cons, List.map_cons, ← Mysql.fetchRow, here, others]
        rfl

def rowCells (columns : List Column) (row : Row) : List (StreamCell UInt8) :=
  List.zipWith streamCell columns row

theorem Carried.cells (carried : Carried (· ≠ 0) held columns)
    (length : row.length = held.length) (readable : ∀ known ∈ held, known.1.type.Readable)
    (small : ∀ column ∈ Mysql.fetchRow columns row, column.content.length < 2 ^ 32) :
    (∀ cell ∈ rowCells (Mysql.fetchRow columns row) row, cell.Agrees ∨ cell.Blurred 0) ∧
      ((∀ cell ∈ rowCells (Mysql.fetchRow columns row) row, cell.Agrees) →
        ∀ cell ∈ held.zip row, cell.2 = none → cell.1.1.Harmless cell.1.2) := by
  induction carried generalizing row with
  | nil => simp [Mysql.fetchRow, rowCells]
  | @cons known column _ _ first rest inductionHypothesis =>
      obtain _ | ⟨value, later⟩ := row
      · exact absurd length (by simp)
      · rw [List.forall_mem_cons] at readable
        rw [Mysql.fetchRow, List.zipWith_cons_cons, ← Mysql.fetchRow, List.forall_mem_cons] at small
        have others := inductionHypothesis (by simpa using length) readable.2 small.2
        rw [Mysql.fetchRow, List.zipWith_cons_cons, ← Mysql.fetchRow, rowCells,
          List.zipWith_cons_cons, ← rowCells, List.zip_cons_cons]
        simp only [List.forall_mem_cons]
        obtain ⟨harmless, agrees⟩ | blurred := first.cell readable.1 small.1
        · exact ⟨⟨.inl agrees, others.1⟩, fun all => ⟨harmless, others.2 all.2⟩⟩
        · exact ⟨⟨.inr blurred, others.1⟩, fun all => absurd all.1 blurred.not_agrees⟩

def runCells : List Column → List Row → List (StreamCell UInt8)
  | _, [] => []
  | columns, row :: rest =>
      rowCells (fetchRow columns row) row ++ runCells (fetchRow columns row) rest

theorem rowCells_expected (columns : List Column) (row : Row) :
    (rowCells columns row).flatMap StreamCell.expected =
      (serial (columns.map Column.heading)
        (cellRow (columns.map Column.heading) row)).flatten.flatten := by
  induction columns generalizing row with
  | nil => rfl
  | cons column rest inductionHypothesis =>
      obtain _ | ⟨value, later⟩ := row
      · rfl
      · rw [rowCells, List.zipWith_cons_cons, ← rowCells, List.flatMap_cons, inductionHypothesis,
          List.map_cons, cellRow_cons, serial_cons, List.flatten_cons, List.flatten_append]
        rfl

theorem rowCells_written {columns : List Column} {row : Row} (length : row.length = columns.length) :
    (rowCells columns row).flatMap StreamCell.written =
      (columns.flatMap Column.pieces).flatten := by
  induction columns generalizing row with
  | nil => rfl
  | cons column rest inductionHypothesis =>
      obtain _ | ⟨value, later⟩ := row
      · exact absurd length (by simp)
      · rw [rowCells, List.zipWith_cons_cons, ← rowCells, List.flatMap_cons,
          inductionHypothesis (by simpa using length), List.flatMap_cons, List.flatten_append]
        rfl

section

variable {headings : List Heading}

theorem runCells_streams (headingsEq : columns.map Column.heading = headings)
    (rectangular : Rectangular columns.length rows) :
    (runCells columns rows).flatMap StreamCell.expected =
        ((cellRows headings rows).flatMap (serial headings)).flatten.flatten ∧
      (runCells columns rows).flatMap StreamCell.written =
        ((snapshots columns rows).flatten.flatMap Column.pieces).flatten := by
  induction rows generalizing columns with
  | nil => exact ⟨rfl, rfl⟩
  | cons row rest inductionHypothesis =>
      obtain ⟨width, others⟩ := List.forall_mem_cons.mp rectangular
      have fetchedLength := fetchRow_length width
      have fetchedHeadings : (fetchRow columns row).map Column.heading = headings := by
        rw [fetchRow_map Column.heading (fun column value => by cases value <;> rfl) width,
          headingsEq]
      obtain ⟨expected, written⟩ := inductionHypothesis fetchedHeadings
        (by rw [Rectangular, fetchedLength]; exact others)
      constructor
      · rw [runCells, List.flatMap_append, expected, rowCells_expected, fetchedHeadings,
          cellRows_cons, List.flatMap_cons, List.flatten_append, List.flatten_append]
      · rw [runCells, List.flatMap_append, written, rowCells_written (by rw [fetchedLength, width]),
          snapshots, List.flatten_cons, List.flatMap_append, List.flatten_append]

theorem Carried.snapshots_sound {Junk : UInt8 → Prop} (carried : Carried Junk held columns)
    (reported : ∀ row ∈ rows, RowReported (held.map Prod.fst) row) :
    ∀ column ∈ (snapshots columns rows).flatten, column.Sound := by
  induction rows generalizing held columns with
  | nil => simp [snapshots]
  | cons row rest inductionHypothesis =>
      obtain ⟨here, others⟩ := List.forall_mem_cons.mp reported
      have next := carried.fetchRow here
      have same := hold_headings (by simpa using here.length)
      rw [snapshots, List.flatten_cons, List.forall_mem_append]
      exact ⟨next.sound, inductionHypothesis next (same.symm ▸ others)⟩

/-- Where the NULLs do no harm, the writer writes what the getters return. -/
theorem Carried.snapshots_pieces {Junk : UInt8 → Prop} (carried : Carried Junk held columns)
    (reported : ∀ row ∈ rows, RowReported (held.map Prod.fst) row)
    (repeats : RepeatsZero held rows) :
    (snapshots columns rows).flatten.map Column.pieces =
      (cellRows (held.map Prod.fst) rows).flatMap (serial (held.map Prod.fst)) := by
  induction rows generalizing held columns with
  | nil => rfl
  | cons row rest inductionHypothesis =>
      obtain ⟨here, others⟩ := List.forall_mem_cons.mp reported
      have length : row.length = held.length := by simpa using here.length
      have same := hold_headings length
      have later := inductionHypothesis (carried.fetchRow here) (same.symm ▸ others) repeats.2
      rw [same] at later
      rw [snapshots, List.flatten_cons, List.map_append, carried.pieces length repeats.1, later,
        cellRows_cons, List.flatMap_cons]

/-- With junk that is nowhere zero, every cell agrees or is blurred, and if all
agree the NULLs do no harm. -/
theorem Carried.runCells (carried : Carried (· ≠ 0) held columns)
    (reported : ∀ row ∈ rows, RowReported (held.map Prod.fst) row)
    (readable : ∀ known ∈ held, known.1.type.Readable)
    (small : ∀ column ∈ (snapshots columns rows).flatten, column.content.length < 2 ^ 32) :
    (∀ cell ∈ runCells columns rows, cell.Agrees ∨ cell.Blurred 0) ∧
      ((∀ cell ∈ Mysql.runCells columns rows, cell.Agrees) → RepeatsZero held rows) := by
  induction rows generalizing held columns with
  | nil => exact ⟨by simp [Mysql.runCells], fun _ => trivial⟩
  | cons row rest inductionHypothesis =>
      obtain ⟨here, others⟩ := List.forall_mem_cons.mp reported
      have length : row.length = held.length := by simpa using here.length
      have same := hold_headings length
      rw [snapshots, List.flatten_cons, List.forall_mem_append] at small
      have nextReadable : ∀ known ∈ List.zipWith hold held row, known.1.type.Readable := by
        intro known membership
        have heading : known.1 ∈ (List.zipWith hold held row).map Prod.fst :=
          List.mem_map_of_mem membership
        rw [same] at heading
        obtain ⟨source, sourceMem, sourceEq⟩ := List.mem_map.mp heading
        exact sourceEq ▸ readable source sourceMem
      have now := carried.cells length readable small.1
      have later := inductionHypothesis (carried.fetchRow here) (same.symm ▸ others) nextReadable
        small.2
      rw [Mysql.runCells]
      simp only [List.forall_mem_append]
      exact ⟨⟨now.1, later.1⟩, fun all => ⟨now.2 all.1, later.2 all.2⟩⟩

end

/-! The getters. -/

theorem integerOf_zeros (isUnsigned : Bool) (width : Nat) :
    integerOf isUnsigned (List.replicate width 0) = .number 0 := by
  have zero : leValue (List.replicate width 0) = 0 := by
    induction width with
    | zero => rfl
    | succ width inductionHypothesis =>
        rw [List.replicate_succ, leValue, inductionHypothesis]
        rfl
  cases isUnsigned <;> simp [integerOf, zero]

theorem getter_fetch {column : Column} {value : Option Bytes}
    (readable : column.heading.type.Readable)
    (sized : ∀ bytes, value = some bytes → column.heading.Sized bytes) :
    (column.fetch value).getter = column.heading.value (column.heading.cellBytes value) := by
  obtain ⟨⟨type, isUnsigned, bufferLength⟩, data, len, isNull, columnName⟩ := column
  dsimp only [Column.heading] at readable sized ⊢
  cases value with
  | none =>
      cases type
      case string | varString | json | float | double => rfl
      case tiny | short | long =>
        refine Eq.trans ?_ (integerOf_zeros isUnsigned _).symm
        cases isUnsigned <;> rfl
      all_goals exact absurd readable (by decide)
  | some bytes =>
      have taken := memcpy_zero_take data bytes
      cases type
      case string | varString | json => exact congrArg LuaValue.string taken
      case float | double =>
        have width := sized bytes rfl _ rfl
        rw [width] at taken
        simp only [Column.getter, Column.fetch, Column.getFloat, Column.getFixed,
          Bool.false_eq_true, if_false, taken, Heading.value, Heading.cellBytes]
      case tiny | short | long =>
        have width := sized bytes rfl _ rfl
        rw [width] at taken
        cases isUnsigned <;>
          simp only [Column.getter, Column.fetch, Column.getInt8, Column.getInt16,
            Column.getInt32, Column.getUInt8, Column.getUInt16, Column.getUInt32,
            Column.getFixed, Bool.false_eq_true, if_false, taken, Heading.value,
            Heading.cellBytes]
      all_goals exact absurd readable (by decide)

theorem fetchRow_getters {columns : List Column} {row : Row}
    (readable : ∀ column ∈ columns, column.heading.type.Readable)
    (reported : RowReported (columns.map Column.heading) row) :
    (fetchRow columns row).map (fun column => (column.memInfo.columnName, column.getter)) =
      shown (columns.map Column.heading) (cellRow (columns.map Column.heading) row) := by
  induction columns generalizing row with
  | nil => rfl
  | cons column rest inductionHypothesis =>
      obtain _ | ⟨value, later⟩ := row
      · exact absurd reported.length (by simp)
      · obtain ⟨sized, others⟩ := reported.tail
        rw [List.forall_mem_cons] at readable
        have here := getter_fetch readable.1 sized
        have tail := inductionHypothesis readable.2 others
        rw [fetchRow, List.zipWith_cons_cons, List.map_cons, ← fetchRow, tail, here,
          Column.fetch_columnName]
        rfl

theorem snapshots_getters {columns : List Column} {rows : List Row}
    (headingsEq : columns.map Column.heading = headings)
    (readable : ∀ heading ∈ headings, heading.type.Readable)
    (reported : ∀ row ∈ rows, RowReported headings row) (key : Nat) :
    ((snapshots columns rows).zipIdx (key + 1)).map (fun entry =>
        (entry.2, entry.1.map fun column => (column.memInfo.columnName, column.getter))) =
      luaRows headings key (cellRows headings rows) := by
  induction rows generalizing columns key with
  | nil => rfl
  | cons row rest inductionHypothesis =>
      obtain ⟨here, others⟩ := List.forall_mem_cons.mp reported
      have width : row.length = columns.length := by
        rw [here.length, ← headingsEq, List.length_map]
      have fetchedHeadings : (fetchRow columns row).map Column.heading = headings := by
        rw [fetchRow_map Column.heading (fun column value => by cases value <;> rfl) width,
          headingsEq]
      have known : ∀ column ∈ columns, column.heading.type.Readable := by
        intro column membership
        exact readable _ (headingsEq ▸ List.mem_map_of_mem membership)
      have first := fetchRow_getters known (headingsEq.symm ▸ here)
      have later := inductionHypothesis fetchedHeadings others (key + 1)
      rw [snapshots, List.zipIdx_cons, List.map_cons, later, first, headingsEq]
      rfl

end

/-! A statement that was not fetched from yet. -/

section

variable {boundLength : FieldType → Nat} {fresh : Nat → Nat → UInt8} {fields : List Field}

/-- `mysql_stmt_bind_result` leaves the length as it is, or sets it to the width of
the type. -/
def BindsWidths (boundLength : FieldType → Nat) : Prop :=
  ∀ type, boundLength type = 0 ∨ type.fixedWidth = some (boundLength type)

theorem bufferLength_of_fixedWidth {field : Field} {width : Nat} (readable : field.type.Readable)
    (fixedWidth : field.type.fixedWidth = some width) : field.bufferLength = width := by
  obtain ⟨name, type, length, isUnsigned⟩ := field
  dsimp only at readable fixedWidth
  cases type
  case tiny | short | long | float | double => exact Option.some.inj fixedWidth
  case string | varString | json => exact nomatch fixedWidth
  all_goals exact absurd readable (by decide)

theorem allocates_of_readable {field : Field} (readable : field.type.Readable) :
    field.Allocates := by
  obtain ⟨name, type, length, isUnsigned⟩ := field
  dsimp only at readable
  cases type
  case tiny | short | long | float | double | string | varString | json => exact ⟨_, rfl⟩
  all_goals exact absurd readable (by decide)

theorem fixedWidth_of_isString {type : FieldType} (string : type.isString = true) :
    type.fixedWidth = none := by
  cases type
  case string | varString | json => rfl
  all_goals exact absurd string (by decide)

theorem column_carries {Junk : UInt8 → Prop} (binds : BindsWidths boundLength) {field : Field}
    (readable : field.type.Readable) {memory : Nat → UInt8} (junk : ∀ index, Junk (memory index)) :
    Carries Junk field.heading none ((field.column memory).bound boundLength) := by
  have bound : boundLength field.type ≤ field.bufferLength := by
    obtain zero | fixedWidth := binds field.type
    · omega
    · rw [bufferLength_of_fixedWidth readable fixedWidth]
  have content : ((field.column memory).bound boundLength).content =
      ((List.range field.bufferLength).map memory).take (boundLength field.type) := rfl
  refine ⟨rfl, ?_, (fun _ held => by cases held), fun _ => ⟨?_, ?_, ?_⟩⟩
  · simpa [Column.Sound, Column.bound, Field.column, Field.bind] using bound
  · intro byte membership
    rw [content] at membership
    obtain ⟨index, -, rfl⟩ := List.mem_map.mp (List.mem_of_mem_take membership)
    exact junk index
  · intro string
    have zero : boundLength field.type = 0 := by
      obtain zero | fixedWidth := binds field.type
      · exact zero
      · have none : field.type.fixedWidth = none := fixedWidth_of_isString string
        cases none.symm.trans fixedWidth
    rw [content, zero, List.take_zero]
  · rw [content, List.length_take, List.length_map, List.length_range]
    obtain zero | fixedWidth := binds field.type
    · omega
    · have fixed : field.heading.type.isString = false := by
        by_contra string
        have none : field.type.fixedWidth = none :=
          fixedWidth_of_isString (Bool.eq_true_of_not_eq_false string)
        cases none.symm.trans fixedWidth
      have known : field.heading.type.fixedWidth = some (boundLength field.type) := fixedWidth
      rw [Heading.zeroBytes, fixed, known]
      simp

theorem bindColumns_carried {Junk : UInt8 → Prop} (binds : BindsWidths boundLength)
    (readable : ∀ field ∈ fields, field.type.Readable) {index : Nat}
    (junk : ∀ i, i < index + fields.length → ∀ j, Junk (fresh i j)) :
    Carried Junk (fields.map fun field => (field.heading, none))
      (bindColumns boundLength fresh index fields) := by
  induction fields generalizing index with
  | nil => exact .nil
  | cons field rest inductionHypothesis =>
      rw [List.forall_mem_cons] at readable
      rw [List.length_cons] at junk
      exact .cons (column_carries binds readable.1 (junk index (by omega)))
        (inductionHypothesis readable.2 fun i bound => junk i (by omega))

theorem cellRow_sized {headings : List Heading} {row : Row}
    (readable : ∀ heading ∈ headings, heading.type.Readable) (reported : RowReported headings row) :
    RowSized headings (cellRow headings row) := by
  induction headings generalizing row with
  | nil => exact ⟨rfl, by simp⟩
  | cons heading rest inductionHypothesis =>
      obtain _ | ⟨value, later⟩ := row
      · exact absurd reported.length (by simp)
      · obtain ⟨sized, others⟩ := reported.tail
        rw [List.forall_mem_cons] at readable
        obtain ⟨length, tail⟩ := inductionHypothesis readable.2 others
        rw [cellRow_cons]
        refine ⟨by simpa using length, ?_⟩
        rw [List.zip_cons_cons, List.forall_mem_cons]
        refine ⟨?_, tail⟩
        cases value with
        | some bytes => exact sized bytes rfl
        | none =>
            intro width fixedWidth
            have fixed : heading.type.isString = false := by
              by_contra string
              have none := fixedWidth_of_isString (Bool.eq_true_of_not_eq_false string)
              cases none.symm.trans fixedWidth
            simp [Heading.cellBytes, Heading.zeroBytes, fixed, fixedWidth]

theorem agrees_iff_delivers (readable : ∀ field ∈ fields, field.type.Readable) {rows : List Row}
    (reported : ∀ row ∈ rows, RowReported (fields.map Field.heading) row) :
    AgreesWithGetters boundLength fresh fields rows ↔
      ∃ readEnds writtenEnds, deliver boundLength fresh fields rows =
        .ok ((luaRows (fields.map Field.heading) 0 (cellRows (fields.map Field.heading) rows),
          readEnds), writtenEnds) := by
  obtain ⟨rs, inited, columnsEq, stmtEq, -, -, -⟩ :=
    @init_ok boundLength fresh fields (fun field known => allocates_of_readable
      (readable field known)) rows
  have getters : getterRows rs.columns rs.stmt =
      luaRows (fields.map Field.heading) 0 (cellRows (fields.map Field.heading) rows) := by
    rw [columnsEq, stmtEq]
    exact snapshots_getters (bindColumns_heading 0) (List.forall_mem_map.mpr readable) reported 0
  constructor
  · rintro ⟨rs', readEnds, writtenEnds, again, delivered⟩
    obtain rfl : rs = rs' := Except.ok.inj (inited.symm.trans again)
    rw [getters] at delivered
    exact ⟨readEnds, writtenEnds, delivered⟩
  · rintro ⟨readEnds, writtenEnds, delivered⟩
    rw [← getters] at delivered
    exact ⟨rs, readEnds, writtenEnds, inited, delivered⟩

def differing (word : Bytes) (index : Nat) : UInt8 := if word[index]? = some 0 then 1 else 0

theorem differing_ne {word : Bytes} {index : Nat} (bound : index < word.length) :
    word[index] ≠ differing word index := by
  intro same
  rw [differing, List.getElem?_eq_getElem bound] at same
  split at same
  · next zero =>
      rw [Option.some.inj zero] at same
      exact absurd same (by decide)
  · next nonzero => exact nonzero (congrArg some same)

/-- In a block that differs from the word, the word is found only in what was
written over it. -/
theorem prefix_of_differing {word front : Bytes} {size : Nat}
    (isPrefix : word <+: memcpy ((List.range size).map (differing word)) 0 front) :
    word <+: front := by
  have written : front <+: memcpy ((List.range size).map (differing word)) 0 front := by
    rw [memcpy, List.take_zero, List.nil_append]
    exact List.prefix_append _ _
  obtain short | long := le_or_gt word.length front.length
  · exact List.prefix_of_prefix_length_le isPrefix written short
  · exfalso
    apply differing_ne long
    have total := isPrefix.length_le
    rw [isPrefix.getElem long]
    simp only [memcpy, List.take_zero, List.nil_append] at total ⊢
    rw [List.getElem_append_right le_rfl]
    simp

/-- Memory that is nowhere zero in the columns, and in the block nowhere what is
expected there. -/
theorem adverse (count : Nat) (word : Bytes) : ∃ fresh : Nat → Nat → UInt8,
    (∀ i, i < 0 + count → ∀ j, fresh i j ≠ 0) ∧ fresh count = differing word := by
  refine ⟨Function.update (fun _ _ => 1) count (differing word), ?_, Function.update_self ..⟩
  intro i bound j
  rw [Function.update_of_ne (by omega)]
  decide

theorem Fits.piece_le {capacity offset : Nat} {pieces : List Bytes}
    (fits : Fits capacity offset pieces) : ∀ piece ∈ pieces, piece.length ≤ capacity := by
  induction pieces generalizing offset with
  | nil => simp
  | cons piece rest inductionHypothesis =>
      obtain ⟨here, later⟩ := fits
      rw [List.forall_mem_cons]
      refine ⟨?_, inductionHypothesis later⟩
      obtain rfl | ⟨-, bound⟩ := here
      · exact Nat.zero_le _
      · omega

theorem content_mem_pieces (column : Column) : column.content ∈ column.pieces := by
  rw [Column.pieces, FieldType.pieces]
  split <;> simp

/-- No value was fetched yet. -/
def unheld (fields : List Field) : List (Heading × Option Bytes) :=
  fields.map fun field => (field.heading, none)

theorem unheld_headings : (unheld fields).map Prod.fst = fields.map Field.heading := List.map_map

section

variable {rows : List Row} (binds : BindsWidths boundLength)
  (readable : ∀ field ∈ fields, field.type.Readable)
  (reported : ∀ row ∈ rows, RowReported (fields.map Field.heading) row)

include readable reported in
theorem cellRows_sized : ∀ row ∈ cellRows (fields.map Field.heading) rows,
    RowSized (fields.map Field.heading) row := by
  rw [cellRows, List.forall_mem_map]
  exact fun row membership =>
    cellRow_sized (List.forall_mem_map.mpr readable) (reported row membership)

include reported in
theorem reported_rectangular : Rectangular fields.length rows := fun row membership => by
  rw [(reported row membership).length, List.length_map]

include reported in
theorem unheld_reported : ∀ row ∈ rows, RowReported ((unheld fields).map Prod.fst) row := by
  rw [unheld_headings]
  exact reported

include binds readable reported in
/-- `deliver_ok` for the table that the getters would give. -/
theorem agrees_iff_stream (some_row : rows ≠ []) (few : rows.length < 2 ^ 31) :
    AgreesWithGetters boundLength fresh fields rows ↔
      (∀ row ∈ rows, InBuffers fields row) ∧
        Fits (blockSize fields rows.length) 0
          ((snapshots (bindColumns boundLength fresh 0 fields) rows).flatten.flatMap
            Column.pieces) ∧
        Fits (blockSize fields rows.length) 0
          (stream fields (cellRows (fields.map Field.heading) rows)).flatten ∧
        (stream fields (cellRows (fields.map Field.heading) rows)).flatten.flatten <+:
          memcpy ((List.range (blockSize fields rows.length)).map (fresh fields.length)) 0
            ((snapshots (bindColumns boundLength fresh 0 fields) rows).flatten.flatMap
              Column.pieces).flatten := by
  have known : ∀ field ∈ fields, field.Allocates := fun field membership =>
    allocates_of_readable (readable field membership)
  have carried : Carried (fun _ => True) (unheld fields)
      (bindColumns boundLength fresh 0 fields) :=
    bindColumns_carried binds readable fun _ _ _ => trivial
  have outcome := fun readEnds writtenEnds => @deliver_ok boundLength fresh fields known rows _ rfl
    (reported_rectangular reported) some_row few _ (List.length_map _)
    (cellRows_sized readable reported)
    (fun _ => carried.snapshots_sound (unheld_reported reported)) readEnds writtenEnds
  rw [agrees_iff_delivers readable reported]
  constructor
  · rintro ⟨readEnds, writtenEnds, delivered⟩
    obtain ⟨inBuffers, fits, -, -, wanted, isPrefix, -⟩ :=
      (outcome readEnds writtenEnds).mp delivered
    exact ⟨inBuffers, fits, wanted, isPrefix⟩
  · rintro ⟨inBuffers, fits, wanted, isPrefix⟩
    exact ⟨_, _, (outcome _ _).mpr ⟨inBuffers, fits, rfl, readable, wanted, isPrefix, rfl⟩⟩

include binds readable reported in
theorem agrees_of_repeats (some_row : rows ≠ []) (few : rows.length < 2 ^ 31)
    (inBuffers : ∀ row ∈ rows, InBuffers fields row) (repeats : RepeatsZero (unheld fields) rows)
    (fits : Fits (blockSize fields rows.length) 0
      (stream fields (cellRows (fields.map Field.heading) rows)).flatten) :
    AgreesWithGetters boundLength fresh fields rows := by
  have carried : Carried (fun _ => True) (unheld fields)
      (bindColumns boundLength fresh 0 fields) :=
    bindColumns_carried binds readable fun _ _ _ => trivial
  have pieces := carried.snapshots_pieces (unheld_reported reported) repeats
  rw [unheld_headings, ← stream] at pieces
  have written : (snapshots (bindColumns boundLength fresh 0 fields) rows).flatten.flatMap
      Column.pieces = (stream fields (cellRows (fields.map Field.heading) rows)).flatten := by
    rw [← pieces, List.flatMap_def]
  rw [agrees_iff_stream binds readable reported some_row few, written]
  refine ⟨inBuffers, fits, fits, ?_⟩
  rw [memcpy, List.take_zero, List.nil_append]
  exact List.prefix_append _ _

include binds readable reported in
theorem repeats_of_agrees (some_row : rows ≠ [])
    (agrees : ∀ fresh, AgreesWithGetters boundLength fresh fields rows) :
    rows.length < 2 ^ 31 ∧ (∀ row ∈ rows, InBuffers fields row) ∧
      RepeatsZero (unheld fields) rows ∧
      Fits (blockSize fields rows.length) 0
        (stream fields (cellRows (fields.map Field.heading) rows)).flatten := by
  obtain ⟨fresh, columnMemory, blockMemory⟩ := adverse fields.length
    (stream fields (cellRows (fields.map Field.heading) rows)).flatten.flatten
  obtain ⟨readEnds, writtenEnds, delivered⟩ :=
    (agrees_iff_delivers readable reported).mp (agrees fresh)
  have few := deliver_length delivered
  rw [luaRows_length, cellRows, List.length_map] at few
  obtain ⟨inBuffers, fits, wantedFits, isPrefix⟩ :=
    (agrees_iff_stream binds readable reported some_row few).mp (agrees fresh)
  rw [blockMemory] at isPrefix
  have found := prefix_of_differing isPrefix
  refine ⟨few, inBuffers, ?_, wantedFits⟩
  have carried : Carried (· ≠ 0) (unheld fields) (bindColumns boundLength fresh 0 fields) :=
    bindColumns_carried binds readable columnMemory
  have small : ∀ column ∈ (snapshots (bindColumns boundLength fresh 0 fields) rows).flatten,
      column.content.length < 2 ^ 32 := by
    intro column membership
    have bound := fits.piece_le _
      (List.mem_flatMap.mpr ⟨column, membership, content_mem_pieces column⟩)
    have capacity : blockSize fields rows.length < 2 ^ 32 := Nat.mod_lt _ (by norm_num)
    omega
  have cells := carried.runCells (unheld_reported reported) (List.forall_mem_map.mpr readable) small
  have streams := runCells_streams (bindColumns_heading 0)
    (show Rectangular (bindColumns boundLength fresh 0 fields).length rows by
      rw [bindColumns_length]
      exact reported_rectangular reported)
  rw [stream, ← streams.1, ← streams.2] at found
  exact cells.2 ((expected_prefix_iff cells.1).mp found)

end

/-- The table that Lua gets agrees with the getters, whatever the buffers were
allocated with, exactly when it is empty or no NULL meets a buffer that holds
something else than what a NULL should be, every value is within its buffer, and
the block and its offsets stay within 32 bits. -/
theorem getters_agree_iff (binds : BindsWidths boundLength)
    (readable : ∀ field ∈ fields, field.type.Readable) {rows : List Row}
    (reported : ∀ row ∈ rows, RowReported (fields.map Field.heading) row) :
    (∀ fresh, AgreesWithGetters boundLength fresh fields rows) ↔
      rows = [] ∨ rows.length < 2 ^ 31 ∧ (∀ row ∈ rows, InBuffers fields row) ∧
        RepeatsZero (unheld fields) rows ∧
        Fits (blockSize fields rows.length) 0
          (stream fields (cellRows (fields.map Field.heading) rows)).flatten := by
  obtain rfl | some_row := eq_or_ne rows []
  · simp only [true_or, iff_true]
    exact fun fresh => (agrees_iff_delivers readable reported).mpr ⟨[], [], deliver_nil
      fun field membership => allocates_of_readable (readable field membership)⟩
  · rw [or_iff_right some_row]
    constructor
    · exact repeats_of_agrees binds readable reported some_row
    · rintro ⟨few, inBuffers, repeats, fits⟩ fresh
      exact agrees_of_repeats binds readable reported some_row few inBuffers repeats fits

end

instance RowReported.decidable (headings : List Heading) (row : Row) :
    Decidable (RowReported headings row) :=
  decidable_of_iff (row.length = headings.length ∧ ∀ cell ∈ headings.zip row,
      ∀ bytes ∈ cell.2.toList, cell.1.Sized bytes)
    ⟨fun known => ⟨known.1, fun cell membership bytes found =>
        known.2 cell membership bytes (by simp [found])⟩,
      fun known => ⟨known.length, fun cell membership bytes found =>
        known.sized cell membership bytes (by simpa using found)⟩⟩

/-- Columns of a `tinyint` and a `varchar`. -/
def levelFields : List Field := [⟨"level", .tiny, 4, false⟩, ⟨"title", .varString, 20, false⟩]

/-- `mysql_stmt_bind_result` does not touch the lengths. -/
theorem bindsWidths_zero : BindsWidths fun _ => 0 := fun _ => .inl rfl

/-- A NULL in a string column before any value, and one in an integer column after
a zero. -/
theorem getters_agree_levels : AgreesWithGetters (fun _ => 0) (fun _ _ => 1) levelFields
    [[some [0], none], [none, some [107]]] :=
  (getters_agree_iff bindsWidths_zero (by decide) (by decide)).mpr
    (.inr ⟨by decide, by decide, by decide, by decide⟩) _

set_option synthInstance.maxSize 1000 in
/-- A NULL after a five reads as five. -/
theorem null_repeats :
    let fields : List Field := [⟨"level", .tiny, 4, false⟩]
    let rows : List Row := [[some [5]], [none]]
    BindsWidths (fun _ => 0) ∧ (∀ field ∈ fields, field.type.Readable) ∧
      (∀ row ∈ rows, RowReported (fields.map Field.heading) row) ∧
      deliver (fun _ => 0) (fun _ _ => 0) fields rows = .ok
        (([(1, [("level", .number 5)]), (2, [("level", .number 5)])], [1, 2]), [1, 2]) ∧
      ¬ AgreesWithGetters (fun _ => 0) (fun _ _ => 0) fields rows := by
  intro fields rows
  have delivered : deliver (fun _ => 0) (fun _ _ => 0) fields rows = .ok
      (([(1, [("level", .number 5)]), (2, [("level", .number 5)])], [1, 2]), [1, 2]) := by
    decide +kernel
  have getters : getterRows (bindColumns (fun _ => 0) (fun _ _ => 0) 0 fields) rows =
      [(1, [("level", .number 5)]), (2, [("level", .number 0)])] := by decide +kernel
  refine ⟨bindsWidths_zero, by decide, by decide, delivered, ?_⟩
  rintro ⟨rs, readEnds, writtenEnds, inited, same⟩
  obtain ⟨rs', inited', columnsEq, stmtEq, -, -, -⟩ := @init_ok (fun _ => 0) (fun _ _ => 0) fields
    (fun field membership => allocates_of_readable
      ((by decide : ∀ field ∈ fields, field.type.Readable) field membership)) rows
  obtain rfl : rs = rs' := Except.ok.inj (inited.symm.trans inited')
  rw [columnsEq, stmtEq, getters, delivered] at same
  simp at same

end CrossOver.Engine.Mysql
