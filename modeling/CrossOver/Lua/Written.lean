import CrossOver.Lua.Tables

/-!
# What is written in packed bytes

`Written` is what the bytes say: values without tables, and for a table the
assignments that fill it, in the order in which they stand there.  `stored`
carries the assignments out; `written_spells` says that the decoder does that
with what it reads, and nothing else.

Not every assignment is kept.  A value may be nil, and a key may be assigned
once more behind it.
-/

namespace CrossOver.Lua

open CrossOver.Lib

/-- The key that `lua_rawset` stores, or the key itself if it stores none. -/
def keySlot (key : LuaValue) : LuaValue :=
  match key.normalizeKey with
  | .ok slot => slot
  | .error _ => key

/-- The value fits into `left` levels: it takes one, and what a table holds has
the others. -/
def LuaValue.Within : Nat → LuaValue → Prop
  | 0, _ => False
  | left + 1, .table _ _ entries => ∀ entry ∈ entries, Within left entry.1 ∧ Within left entry.2
  | _ + 1, _ => True

inductive Written where
  | flat (value : LuaValue)
  | table (assignments : List (Written × Written))

namespace Written

open LuaValue

def isNil : Written → Bool
  | flat value => value.isNil
  | table _ => false

/-- Whether `lua_rawset` takes the key. -/
def slot : Written → Except String LuaValue
  | flat value => value.normalizeKey
  | table _ => .ok (.table none 0 [])

/-- The key that is stored for a flat key; a table is a new one and equal to no other. -/
def key : Written → LuaValue
  | flat value => keySlot value
  | table _ => .table none 0 []

/-- The assignments that leave something in the table. -/
def kept : List (Written × Written) → List (Written × Written)
  | [] => []
  | assignment :: rest =>
      if assignment.2.isNil || rest.any (fun later => rawEqual assignment.1.key later.1.key)
      then kept rest
      else assignment :: kept rest

/-- What is kept fits into `left` levels. -/
def Within : Nat → Written → Prop
  | 0, _ => False
  | left + 1, flat value => value.Within (left + 1)
  | left + 1, table assignments =>
      ∀ assignment ∈ kept assignments, Within left assignment.1 ∧ Within left assignment.2

end Written

section Reading

variable (writtenOne : ReadBlock → Except Failure (Written × ReadBlock))

def writtenArray : Nat → Int → ReadBlock → Except Failure (List (Written × Written) × ReadBlock)
  | 0, _, rb => .ok ([], rb)
  | count + 1, i, rb => do
      let (element, rb) ← writtenOne rb
      let (rest, rb) ← writtenArray count (i + 1) rb
      return ((.flat (.integer (LuaInteger.ofInt i)), element) :: rest, rb)

def writtenHash : Nat → ReadBlock → Except Failure (List (Written × Written) × ReadBlock)
  | 0, _ => .error .outOfFuel
  | fuel + 1, rb => do
      let (key, rb) ← writtenOne rb
      if key.isNil then return ([], rb)
      let (value, rb) ← writtenOne rb
      match key.slot with
      | .error message => .error (.luaError message)
      | .ok _ => do
          let (rest, rb) ← writtenHash fuel rb
          return ((key, value) :: rest, rb)

def writtenTable (rb : ReadBlock) (cookie : Nat) : Except Failure (Written × ReadBlock) := do
  let (arraySize, rb) ← unpackArraySize rb cookie
  let (array, rb) ← writtenArray writtenOne arraySize.toNat 1 rb
  let (hash, rb) ← writtenHash writtenOne (rb.len.toNat + 1) rb
  return (.table (array ++ hash), rb)

def writtenValue (rb : ReadBlock) (type cookie : Nat) : Except Failure (Written × ReadBlock) :=
  if type = typeTable then writtenTable writtenOne rb cookie
  else do
    let (value, rb) ← pushValue (fun _ => 0) (fun _ => .error .outOfFuel) rb type cookie
    return (.flat value, rb)

end Reading

def writtenOne : Nat → ReadBlock → Except Failure (Written × ReadBlock)
  | 0, _ => .error .outOfFuel
  | fuel + 1, rb => do
      let (type, rb) ← readWord rb 1 525
      writtenValue (writtenOne fuel) rb (type % 8) (type / 8)

def writtenLoop (depth : Nat) : Nat → ReadBlock → Except Failure (List Written)
  | 0, _ => .error .outOfFuel
  | fuel + 1, rb =>
      match rb.read 1 with
      | none => .ok []
      | some (offset, next) => do
          let type := leValue (rb.slice offset 1)
          let (value, next) ← writtenValue (writtenOne depth) next (type % 8) (type / 8)
          let rest ← writtenLoop depth fuel next
          return value :: rest

def written (bytes : Bytes) : Except Failure (List Written) :=
  let len := int32Of bytes.length
  if len = 0 then .ok []
  else writtenLoop (len.toNat + 1) (len.toNat + 1) (ReadBlock.init bytes len)

/-! ## Carrying it out -/

mutual

def Written.value (rawlen : List Entry → Nat) : Written → LuaValue
  | .flat value => value
  | .table assignments =>
      .table none (rawlen (stored rawlen assignments [])) (stored rawlen assignments [])

def stored (rawlen : List Entry → Nat) : List (Written × Written) → List Entry → List Entry
  | [], entries => entries
  | (key, value) :: rest, entries =>
      stored rawlen rest (setSlot entries (keySlot (key.value rawlen)) (value.value rawlen))

end

section Spelling

variable {rawlen : List Entry → Nat}

@[simp]
theorem Written.value_isNil (w : Written) : (w.value rawlen).isNil = w.isNil := by
  cases w <;> rfl

theorem stored_append (assignments more : List (Written × Written)) (entries : List Entry) :
    stored rawlen (assignments ++ more) entries =
      stored rawlen more (stored rawlen assignments entries) := by
  induction assignments generalizing entries with
  | nil => rfl
  | cons assignment rest inductionHypothesis => exact inductionHypothesis _

/-- `lua_rawset` fails for the written keys without a slot. -/
theorem rawset_written (entries : List Entry) (key : Written) (value : LuaValue) :
    rawset entries (key.value rawlen) value =
      key.slot.map fun _ => setSlot entries (keySlot (key.value rawlen)) value := by
  cases key with
  | table assignments => rfl
  | flat flat =>
      change rawset entries flat value =
        flat.normalizeKey.map fun _ => setSlot entries (keySlot flat) value
      unfold rawset keySlot
      cases flat.normalizeKey <;> rfl

/-- The plain decoder carries out what the other one has read. -/
def Spells (rawlen : List Entry → Nat)
    (plain : ReadBlock → Except Failure (LuaValue × ReadBlock))
    (reader : ReadBlock → Except Failure (Written × ReadBlock)) : Prop :=
  ∀ rb, plain rb = (reader rb).map fun out => (out.1.value rawlen, out.2)

variable {plain : ReadBlock → Except Failure (LuaValue × ReadBlock)}
  {reader : ReadBlock → Except Failure (Written × ReadBlock)}
  (spells : Spells rawlen plain reader)
include spells

theorem writtenArray_spells (count : Nat) (i : Int) (entries : List Entry) (rb : ReadBlock) :
    unpackArray plain count i entries rb =
      (writtenArray reader count i rb).map fun out => (stored rawlen out.1 entries, out.2) := by
  induction count generalizing i entries rb with
  | zero => rfl
  | succ count inductionHypothesis =>
      rw [unpackArray, writtenArray, spells]
      cases reader rb with
      | error failure => rfl
      | ok element =>
          change unpackArray plain count (i + 1) _ element.2 = _
          rw [inductionHypothesis]
          change _ = Except.map _ (writtenArray reader count (i + 1) element.2 >>= _)
          cases writtenArray reader count (i + 1) element.2 <;> rfl

theorem writtenHash_spells (fuel : Nat) (entries : List Entry) (rb : ReadBlock) :
    unpackHash plain fuel entries rb =
      (writtenHash reader fuel rb).map fun out => (stored rawlen out.1 entries, out.2) := by
  induction fuel generalizing entries rb with
  | zero => rfl
  | succ fuel inductionHypothesis =>
      rw [unpackHash, writtenHash, spells]
      cases reader rb with
      | error failure => rfl
      | ok key =>
          change (if (key.1.value rawlen).isNil = true then _ else _) =
            Except.map _ (if key.1.isNil = true then _ else _)
          rw [Written.value_isNil]
          split_ifs with ended
          · rfl
          · rw [spells]
            cases reader key.2 with
            | error failure => rfl
            | ok read =>
                obtain ⟨value, rest⟩ := read
                rw [Except.map, ok_bind]
                dsimp only
                rw [rawset_written]
                cases key.1.slot with
                | error message => rfl
                | ok slot =>
                    change unpackHash plain fuel _ rest = _
                    rw [inductionHypothesis]
                    change _ = Except.map _ (writtenHash reader fuel rest >>= _)
                    cases writtenHash reader fuel rest <;> rfl

theorem writtenTable_spells (rb : ReadBlock) (cookie : Nat) :
    unpackTable rawlen plain rb cookie =
      (writtenTable reader rb cookie).map fun out => (out.1.value rawlen, out.2) := by
  unfold unpackTable writtenTable
  cases unpackArraySize rb cookie with
  | error failure => rfl
  | ok size =>
      change (unpackArray plain size.1.toNat 1 [] size.2 >>= _) =
        Except.map _ (writtenArray reader size.1.toNat 1 size.2 >>= _)
      rw [writtenArray_spells spells]
      cases writtenArray reader size.1.toNat 1 size.2 with
      | error failure => rfl
      | ok array =>
          change (unpackHash plain (array.2.len.toNat + 1) _ array.2 >>= _) =
            Except.map _ (writtenHash reader (array.2.len.toNat + 1) array.2 >>= _)
          rw [writtenHash_spells spells]
          cases writtenHash reader (array.2.len.toNat + 1) array.2 with
          | error failure => rfl
          | ok hash =>
              change Except.ok (LuaValue.table none (rawlen (stored rawlen hash.1
                (stored rawlen array.1 []))) (stored rawlen hash.1 (stored rawlen array.1 [])),
                  hash.2) = _
              rw [← stored_append]
              rfl

omit spells in
/-- Without a table it does not matter how tables are read. -/
theorem pushValue_flat {type : Nat} (flat : type ≠ typeTable) (rb : ReadBlock) (cookie : Nat) :
    pushValue rawlen plain rb type cookie =
      pushValue (fun _ => 0) (fun _ => .error .outOfFuel) rb type cookie := by
  unfold pushValue
  rw [if_neg flat, if_neg flat]

theorem writtenValue_spells (rb : ReadBlock) (type cookie : Nat) :
    pushValue rawlen plain rb type cookie =
      (writtenValue reader rb type cookie).map fun out => (out.1.value rawlen, out.2) := by
  unfold writtenValue
  split_ifs with table
  · subst table
    exact writtenTable_spells spells rb cookie
  · rw [pushValue_flat table]
    cases pushValue (fun _ => 0) (fun _ => .error .outOfFuel) rb type cookie <;> rfl

omit spells in
theorem writtenOne_spells (fuel : Nat) : Spells rawlen (unpackOne rawlen fuel) (writtenOne fuel) := by
  induction fuel with
  | zero => exact fun rb => rfl
  | succ fuel inductionHypothesis =>
      intro rb
      rw [unpackOne, writtenOne]
      cases readWord rb 1 525 with
      | error failure => rfl
      | ok header => exact writtenValue_spells inductionHypothesis header.2 _ _

omit spells in
theorem writtenLoop_spells (depth fuel : Nat) (rb : ReadBlock) :
    unpackLoop rawlen depth fuel rb =
      (writtenLoop depth fuel rb).map (List.map (Written.value rawlen)) := by
  induction fuel generalizing rb with
  | zero => rfl
  | succ fuel inductionHypothesis =>
      rw [unpackLoop, writtenLoop]
      cases rb.read 1 with
      | none => rfl
      | some header =>
          dsimp only
          rw [writtenValue_spells (writtenOne_spells depth)]
          cases writtenValue (writtenOne depth) header.2 _ _ with
          | error failure => rfl
          | ok value =>
              change (unpackLoop rawlen depth fuel value.2 >>= _) =
                Except.map _ (writtenLoop depth fuel value.2 >>= _)
              rw [inductionHypothesis]
              cases writtenLoop depth fuel value.2 <;> rfl

omit spells in
theorem written_spells (bytes : Bytes) :
    unpack rawlen (.string bytes) = (written bytes).map (List.map (Written.value rawlen)) := by
  unfold unpack unpackBuffer written
  dsimp only
  split_ifs with empty
  · rfl
  · exact writtenLoop_spells _ _ _

end Spelling

end CrossOver.Lua
