import CrossOver.Lua.Tracing

/-!
# What a decode of hostile bytes returns

`Steady` holds between two reads of a decode: all that was read tiles the bytes
in front of the cursor, and all behind it is still to come.  `Careful` is the
specification of a decoder that keeps it, raises nothing but Lua errors and reads
a number of bytes at least, as long as fewer than `room` bytes are left.

What is said of the values is a parameter: `Closed` is what the decoder needs of
a property to return nothing else.
-/

namespace CrossOver.Lua

open CrossOver.Lib

/-- A property of values, and one of the entries of a table that is being filled,
which hold of all that can be made of the first `stop` bytes. -/
structure Closed (rawlen : List Entry → Nat) (bytes : Bytes) (stop : Int)
    (fine : LuaValue → Prop) (held : List Entry → Prop) : Prop where
  nil : fine .nil
  boolean : ∀ value, fine (.boolean value)
  integer : ∀ value, fine (.integer value)
  number : ∀ bits, fine (.number bits)
  lightuserdata : ∀ address, fine (.lightuserdata address)
  string : ∀ str, str <:+: bytes → str.length ≤ stop → fine (.string str)
  empty : held []
  set : ∀ entries key value stored, held entries → fine key → fine value →
    rawset entries key value = .ok stored → held stored
  table : ∀ entries, held entries → fine (.table none (rawlen entries) entries)

/-- Lua catches it. -/
def Raised (failure : Failure) : Prop := ∃ message, failure = .luaError message

/-- All in front of the cursor was read once, all from there to the stop is left. -/
structure Steady (bytes : Bytes) (stop : Int) (t : Traced) : Prop where
  buffer : t.rb.buffer = bytes
  left : 0 ≤ t.rb.len
  total : t.rb.ptr + t.rb.len = stop
  tiles : Tiles 0 t.reads t.rb.ptr

theorem Steady.behind {bytes : Bytes} {stop : Int} {t : Traced} {sz : Int}
    (steady : Steady bytes stop t) (positive : 0 ≤ sz) (enough : sz ≤ t.rb.len) :
    Steady bytes stop { rb := t.rb.behind sz, reads := t.reads ++ [(t.rb.ptr, sz)] } where
  buffer := steady.buffer
  left := by
    change 0 ≤ t.rb.len - sz
    omega
  total := by
    have total := steady.total
    change t.rb.ptr + sz + (t.rb.len - sz) = stop
    omega
  tiles := steady.tiles.append (.single positive)

theorem Steady.slice {bytes : Bytes} {stop : Int} {t : Traced} (steady : Steady bytes stop t)
    (offset : Int) (sz : Nat) : t.rb.slice offset sz <:+: bytes := by
  rw [ReadBlock.slice, steady.buffer]
  exact (List.take_prefix _ _).isInfix.trans (List.drop_suffix _ _).isInfix

section Specification

variable {First Second : Type} {bytes : Bytes} {stop room least : Int} {good : First → Prop}

def Careful (bytes : Bytes) (stop room least : Int) (good : First → Prop) (x : Tracing First) :
    Prop :=
  ∀ t, Steady bytes stop t → t.rb.len < room →
    Behaves Raised x
      (fun value t' => Steady bytes stop t' ∧ t'.rb.len + least ≤ t.rb.len ∧ good value) t

namespace Careful

theorem pure {value : First} (holds : good value) : Careful bytes stop room 0 good (pure value) :=
  fun t steady _ => ⟨steady, by omega, holds⟩

theorem throw {message : String} :
    Careful bytes stop room least good (throw (.luaError message) : Tracing First) :=
  fun _ _ _ => ⟨message, rfl⟩

theorem invalidStream {line : Nat} :
    Careful bytes stop room least good (Traced.invalidStream line : Tracing First) :=
  fun _ _ _ => ⟨_, rfl⟩

theorem bind {x : Tracing First} {f : First → Tracing Second} {more : Int} {fine : Second → Prop}
    (first : Careful bytes stop room least good x)
    (second : ∀ value, good value → Careful bytes stop (room - least) more fine (f value)) :
    Careful bytes stop room (least + more) fine (x >>= f) := by
  intro t steady small
  refine (first t steady small).seq fun value t' reached => ?_
  obtain ⟨steadyThere, read, holds⟩ := reached
  refine (second value holds t' steadyThere (by omega)).mono fun last t'' ended => ?_
  exact ⟨ended.1, by omega, ended.2.2⟩

theorem mono {x : Tracing First} {room' least' : Int} {weaker : First → Prop}
    (careful : Careful bytes stop room least good x) (rooms : room' ≤ room) (reads : least' ≤ least)
    (implies : ∀ value, good value → weaker value) : Careful bytes stop room' least' weaker x := by
  intro t steady small
  refine (careful t steady (by omega)).mono fun value t' ended => ?_
  exact ⟨ended.1, by omega, implies value ended.2.2⟩

/-- What the first part has read need not be counted. -/
theorem andThen {x : Tracing First} {f : First → Tracing Second} {more : Int}
    {fine : Second → Prop} (first : Careful bytes stop room least good x) (positive : 0 ≤ least)
    (second : ∀ value, good value → Careful bytes stop room more fine (f value)) :
    Careful bytes stop room more fine (x >>= f) :=
  (first.bind fun value holds => (second value holds).mono (by omega) (le_refl _) fun _ => id).mono
    (le_refl _) (by omega) fun _ => id

end Careful

theorem readWord_careful (width line : Nat) :
    Careful bytes stop room width (fun _ => True) (Traced.readWord width line) := by
  intro t steady _
  by_cases short : t.rb.len < width
  · unfold Behaves
    rw [Traced.readWord_missing short]
    exact ⟨_, rfl⟩
  · unfold Behaves
    rw [Traced.readWord_found short]
    refine ⟨steady.behind (by omega) (by omega), ?_, trivial⟩
    change t.rb.len - width + width ≤ t.rb.len
    omega

theorem readWord_pure_careful (width line : Nat) {value : Nat → First}
    (holds : ∀ n, good (value n)) :
    Careful bytes stop room 0 good (Traced.readWord width line >>= fun n => pure (value n)) :=
  (readWord_careful width line).andThen (by omega) fun n _ => .pure (holds n)

theorem getInteger_careful (cookie : Nat) :
    Careful bytes stop room 0 (fun _ => True) (Traced.getInteger cookie) := by
  unfold Traced.getInteger
  split_ifs with zero byte word dword qword
  · exact .pure trivial
  · exact readWord_pure_careful 1 365 fun n => trivial
  · exact readWord_pure_careful 2 373 fun n => trivial
  · exact readWord_pure_careful 4 381 fun n => trivial
  · exact readWord_pure_careful 8 389 fun n => trivial
  · exact .invalidStream

theorem getReal_careful : Careful bytes stop room 0 (fun _ => True) Traced.getReal :=
  readWord_pure_careful 8 404 fun _ => trivial

theorem getPointer_careful : Careful bytes stop room 0 (fun _ => True) Traced.getPointer :=
  readWord_pure_careful 8 414 fun _ => trivial

theorem unpackArraySize_careful (cookie : Nat) :
    Careful bytes stop room 0 (fun _ => True) (Traced.unpackArraySize cookie) := by
  unfold Traced.unpackArraySize
  split_ifs with escape
  · refine (readWord_careful 1 437).andThen (by decide) fun type _ => ?_
    split_ifs with wrong
    · exact .invalidStream
    · exact (getInteger_careful (type / 8)).andThen (le_refl 0) fun size _ => .pure trivial
  · exact .pure trivial

section Unpack

variable {rawlen : List Entry → Nat} {fine : LuaValue → Prop} {held : List Entry → Prop}
  (closed : Closed rawlen bytes stop fine held)
include closed

theorem getBuffer_careful (len : Int) :
    Careful bytes stop room 0 fine (Traced.getBuffer len) := by
  intro t steady _
  by_cases short : t.rb.len < len
  · unfold Behaves
    rw [Traced.getBuffer_missing short]
    exact ⟨_, rfl⟩
  · unfold Behaves
    rw [Traced.getBuffer_found short]
    by_cases negative : len < 0
    · rw [if_pos negative]
      exact ⟨_, rfl⟩
    · have positive : 0 ≤ len := by omega
      have there := steady.behind positive (by omega)
      have length : ((t.rb.slice t.rb.ptr len.toNat).length : Int) ≤ stop := by
        have total := steady.total
        have front := steady.tiles.le
        have taken : (t.rb.slice t.rb.ptr len.toNat).length ≤ len.toNat := List.length_take_le ..
        omega
      rw [if_neg negative]
      refine ⟨there, ?_, closed.string _ (there.slice t.rb.ptr len.toNat) length⟩
      change t.rb.len - len + 0 ≤ t.rb.len
      omega

variable {unpackOne : Tracing LuaValue}

theorem unpackArray_careful (nested : Careful bytes stop room 1 fine unpackOne) (count : Nat)
    (i : Int) {entries : List Entry} (filled : held entries) :
    Careful bytes stop room 0 held (Traced.unpackArray unpackOne count i entries) := by
  induction count generalizing i entries with
  | zero => exact .pure filled
  | succ count inductionHypothesis =>
      exact nested.andThen (by decide) fun element fineElement =>
        inductionHypothesis (i + 1) (closed.set _ _ _ _ filled (closed.integer _) fineElement rfl)

/-- A turn of the loop reads two bytes or is the last. -/
theorem unpackHash_careful (nested : Careful bytes stop room 1 fine unpackOne) {fuel : Nat}
    (enough : fuel ≤ room) {entries : List Entry} (filled : held entries) :
    Careful bytes stop fuel 0 held (Traced.unpackHash unpackOne fuel entries) := by
  induction fuel generalizing entries with
  | zero => exact fun t steady small => absurd small (not_lt.mpr steady.left)
  | succ fuel inductionHypothesis =>
      have rest : ∀ stored, held stored →
          Careful bytes stop fuel 0 held (Traced.unpackHash unpackOne fuel stored) :=
        fun stored => inductionHypothesis (by omega)
      have here := nested.mono enough (le_refl 1) fun _ => id
      refine (here.bind fun key fineKey => ?_).mono (le_refl _) (by decide : (0 : Int) ≤ 1 + 0)
        fun _ => id
      have left : Careful bytes stop (((fuel + 1 : Nat) : Int) - 1) 1 fine unpackOne :=
        nested.mono (by omega) (le_refl 1) fun _ => id
      split_ifs with ended
      · exact .pure filled
      · refine left.andThen (by decide) fun value fineValue => ?_
        cases stores : rawset entries key value with
        | error message => exact .throw
        | ok stored =>
            exact (rest stored (closed.set _ _ _ _ filled fineKey fineValue stores)).mono
              (by omega) (le_refl 0) fun _ => id

theorem unpackTable_careful (nested : Careful bytes stop room 1 fine unpackOne) (cookie : Nat) :
    Careful bytes stop room 0 fine (Traced.unpackTable rawlen unpackOne cookie) := by
  refine (unpackArraySize_careful cookie).andThen (le_refl 0) fun arraySize _ => ?_
  refine (unpackArray_careful closed nested arraySize.toNat 1 closed.empty).andThen (le_refl 0)
    fun array filled => ?_
  intro t steady small
  have left := steady.left
  have enough : ((t.rb.len.toNat + 1 : Nat) : Int) ≤ room := by omega
  have hash : Careful bytes stop ((t.rb.len.toNat + 1 : Nat) : Int) 0 fine
      (Traced.unpackHash unpackOne (t.rb.len.toNat + 1) array >>= fun entries =>
        pure (.table none (rawlen entries) entries)) :=
    (unpackHash_careful closed nested enough filled).andThen (le_refl 0) fun entries whole =>
      .pure (closed.table entries whole)
  exact hash t steady (by omega)

theorem pushValue_careful (nested : Careful bytes stop room 1 fine unpackOne)
    (type cookie : Nat) :
    Careful bytes stop room 0 fine (Traced.pushValue rawlen unpackOne type cookie) := by
  unfold Traced.pushValue
  split_ifs with nil boolean number real userdata short long two other table
  · exact .pure closed.nil
  · exact .pure (closed.boolean _)
  · exact getReal_careful.andThen (le_refl 0) fun bits _ => .pure (closed.number bits)
  · exact (getInteger_careful cookie).andThen (le_refl 0) fun value _ => .pure (closed.integer _)
  · exact getPointer_careful.andThen (le_refl 0) fun address _ =>
      .pure (closed.lightuserdata address)
  · exact getBuffer_careful closed cookie
  · exact (readWord_careful 2 490).andThen (by decide) fun n _ => getBuffer_careful closed n
  · exact .invalidStream
  · refine (readWord_careful 4 501).andThen (by decide) fun n _ => ?_
    generalize int32Of n = len
    exact getBuffer_careful closed len
  · exact unpackTable_careful closed nested cookie
  · exact .invalidStream

theorem unpackOne_careful (fuel : Nat) :
    Careful bytes stop fuel 1 fine (Traced.unpackOne rawlen fuel) := by
  induction fuel with
  | zero => exact fun t steady small => absurd small (not_lt.mpr steady.left)
  | succ fuel inductionHypothesis =>
      refine ((readWord_careful 1 525).bind fun type _ => ?_).mono (le_refl _)
        (by decide : (1 : Int) ≤ (1 : Nat) + 0) fun _ => id
      exact (pushValue_careful closed inductionHypothesis (type % 8) (type / 8)).mono (by omega)
        (le_refl 0) fun _ => id

omit closed in
theorem Traced.unpackLoop_ended {depth fuel : Nat} {t : Traced} (ended : t.rb.len < 1) :
    Traced.unpackLoop rawlen depth (fuel + 1) t = .ok ([], t) := if_pos ended

theorem unpackLoop_behaves {depth fuel : Nat} (enough : fuel ≤ depth + 1) {t : Traced}
    (steady : Steady bytes stop t) (small : t.rb.len < fuel) :
    Behaves Raised (Traced.unpackLoop rawlen depth fuel)
      (fun values t' => Steady bytes stop t' ∧ t'.rb.len = 0 ∧ ∀ value ∈ values, fine value) t := by
  induction fuel generalizing t with
  | zero => exact absurd small (not_lt.mpr steady.left)
  | succ fuel inductionHypothesis =>
      by_cases ended : t.rb.len < 1
      · have left := steady.left
        unfold Behaves
        rw [Traced.unpackLoop_ended ended]
        exact ⟨steady, by omega, fun value membership => absurd membership List.not_mem_nil⟩
      · have goesOn : Traced.unpackLoop rawlen depth (fuel + 1) t = (do
            let type ← Traced.readWord 1 525
            let value ← Traced.pushValue rawlen (Traced.unpackOne rawlen depth) (type % 8) (type / 8)
            let rest ← Traced.unpackLoop rawlen depth fuel
            return value :: rest : Tracing (List LuaValue)) t := if_neg ended
        unfold Behaves
        rw [goesOn]
        refine (readWord_careful 1 525 t steady small).seq fun type t₁ header => ?_
        obtain ⟨steady₁, read, -⟩ := header
        have nested : Careful bytes stop depth 0 fine
            (Traced.pushValue rawlen (Traced.unpackOne rawlen depth) (type % 8) (type / 8)) :=
          pushValue_careful closed (unpackOne_careful closed depth) (type % 8) (type / 8)
        refine (nested t₁ steady₁ (by omega)).seq fun value t₂ pushed => ?_
        obtain ⟨steady₂, kept, fineValue⟩ := pushed
        refine (inductionHypothesis (by omega) steady₂ (by omega)).seq fun rest t₃ others => ?_
        obtain ⟨steady₃, done, fineRest⟩ := others
        exact ⟨steady₃, done, List.forall_mem_cons.mpr ⟨fineValue, fineRest⟩⟩

end Unpack

end Specification

/-- Bytes that anybody may have sent raise a Lua error, or the reads tile the
part that the `int` of their length announces. -/
theorem unpack_tiles {rawlen : List Entry → Nat} {bytes : Bytes} {fine : LuaValue → Prop}
    {held : List Entry → Prop}
    (closed : Closed rawlen bytes (int32Of bytes.length) fine held) :
    (∃ message, unpack rawlen (.string bytes) = .error (.luaError message)) ∨
      ∃ values reads, Traced.unpack rawlen bytes = .ok (values, reads) ∧
        unpack rawlen (.string bytes) = .ok values ∧
        Tiles 0 reads (max 0 (int32Of bytes.length)) ∧ ∀ value ∈ values, fine value := by
  have follows := unpack_follows rawlen bytes
  obtain ⟨len, counted⟩ : ∃ len, int32Of bytes.length = len := ⟨_, rfl⟩
  rw [counted] at closed ⊢
  by_cases empty : len ≤ 0
  · have nothing : Traced.unpack rawlen bytes = .ok ([], []) := by
      unfold Traced.unpack
      rw [counted]
      dsimp only
      by_cases zero : len = 0
      · rw [if_pos zero]
      · have ended : (ReadBlock.init bytes len).len < 1 := by
          change len < 1
          omega
        have loop : Traced.unpackLoop rawlen (len.toNat + 1) (len.toNat + 1)
            { rb := ReadBlock.init bytes len } = .ok ([], { rb := ReadBlock.init bytes len }) :=
          Traced.unpackLoop_ended ended
        rw [if_neg zero, loop]
        rfl
    rw [nothing] at follows
    refine Or.inr ⟨[], [], nothing, follows.symm, ?_, fun value membership => ?_⟩
    · exact (max_eq_left empty).symm
    · exact absurd membership List.not_mem_nil
  · unfold Traced.unpack at follows ⊢
    rw [counted] at follows ⊢
    dsimp only at follows ⊢
    rw [if_neg (by omega : ¬len = 0)] at follows ⊢
    have steady : Steady bytes len { rb := ReadBlock.init bytes len } :=
      ⟨rfl, by change 0 ≤ len; omega, by change 0 + len = len; omega, rfl⟩
    have small : len < (len.toNat + 1 : Nat) := by omega
    have behaves := unpackLoop_behaves closed (Nat.le_succ _) steady small
    cases ran : Traced.unpackLoop rawlen (len.toNat + 1) (len.toNat + 1)
        { rb := ReadBlock.init bytes len } with
    | error failure =>
        obtain ⟨message, rfl⟩ := behaves.failed ran
        rw [ran] at follows
        exact Or.inl ⟨message, follows.symm⟩
    | ok made =>
        obtain ⟨values, t⟩ := made
        obtain ⟨there, done, each⟩ := behaves.returned ran
        have whole : Tiles 0 t.reads (max 0 len) := by
          have total := there.total
          rw [done, add_zero] at total
          rw [max_eq_right (by omega), ← total]
          exact there.tiles
        rw [ran] at follows
        exact Or.inr ⟨values, t.reads, rfl, follows.symm, whole, each⟩

/-! ## Slices -/

def Sliced (bytes : Bytes) (value : LuaValue) : Prop :=
  ∀ str, Inside (.string str) value → str <:+: bytes

theorem sliced_closed (rawlen : List Entry → Nat) (bytes : Bytes) (stop : Int) :
    Closed rawlen bytes stop (Sliced bytes)
      (fun entries => ∀ entry ∈ entries, Sliced bytes entry.1 ∧ Sliced bytes entry.2) where
  nil := nofun
  boolean _ := nofun
  integer _ := nofun
  number _ := nofun
  lightuserdata _ := nofun
  string str slice _ := by
    intro inner inside
    cases inside
    exact slice
  empty entry membership := absurd membership List.not_mem_nil
  set entries key value stored sliced slicedKey slicedValue success := by
    obtain ⟨slot, normal, rfl⟩ := rawset_ok success
    intro entry membership
    rcases mem_setSlot.mp membership with ⟨old, -⟩ | ⟨-, rfl⟩
    · exact sliced entry old
    · refine ⟨?_, slicedValue⟩
      rcases normalizeKey_ok normal with rfl | ⟨_, _, rfl, rfl⟩
      · exact slicedKey
      · exact nofun
  table entries sliced str inside := by
    cases inside with
    | key membership inside => exact (sliced _ membership).1 str inside
    | value membership inside => exact (sliced _ membership).2 str inside

/-- Bytes that anybody may have sent raise a Lua error, or each of them is read
once and the strings that come out of them are slices of them. -/
theorem unpack_safe (rawlen : List Entry → Nat) {bytes : Bytes} (short : bytes.length < 2 ^ 31) :
    (∃ message, unpack rawlen (.string bytes) = .error (.luaError message)) ∨
      ∃ values reads, Traced.unpack rawlen bytes = .ok (values, reads) ∧
        unpack rawlen (.string bytes) = .ok values ∧
        (∀ read ∈ reads, 0 ≤ read.1 ∧ 0 ≤ read.2 ∧ read.1 + read.2 ≤ bytes.length) ∧
        (∀ position : Nat, position < bytes.length → reads.countP (covers position) = 1) ∧
        ∀ value ∈ values, ∀ str, Inside (.string str) value → str <:+: bytes := by
  have length : int32Of bytes.length = bytes.length := int32Of_of_bounds (by omega) (by omega)
  rcases unpack_tiles (sliced_closed rawlen bytes (int32Of bytes.length)) with
    failed | ⟨values, reads, traced, plain, tiles, sliced⟩
  · exact Or.inl failed
  · rw [length, max_eq_right (by omega)] at tiles
    exact Or.inr ⟨values, reads, traced, plain, tiles.inside,
      fun position inside => tiles.once (by omega) (by omega), sliced⟩

/-- A table with a list in it, and a string under a key: `{{"b"}, a = "c"}`. -/
def nestedTable : Bytes := [14, 14, 12, 98, 0, 12, 97, 12, 99, 0]

theorem unpack_safe_nested : ∃ values reads,
    Traced.unpack List.length nestedTable = .ok (values, reads) ∧ values.length = 1 ∧
      (∀ position : Nat, position < nestedTable.length → reads.countP (covers position) = 1) ∧
      ∀ value ∈ values, ∀ str, Inside (.string str) value → str <:+: nestedTable := by
  have returned : unpack List.length (.string nestedTable) = .ok
      [.table none 2 [(.integer (.ofInt 1), .table none 1 [(.integer (.ofInt 1), .string [98])]),
        (.string [97], .string [99])]] := rfl
  have short : nestedTable.length < 2 ^ 31 := by decide
  rcases unpack_safe List.length short with
    ⟨message, failed⟩ | ⟨values, reads, traced, plain, -, once, slices⟩
  · rw [returned] at failed
    cases failed
  · rw [returned] at plain
    cases plain
    exact ⟨_, reads, traced, rfl, once, slices⟩

end CrossOver.Lua
