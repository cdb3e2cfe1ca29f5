import CrossOver.Lua.Pb.Scalars

/-!
# `lua_pb`: one turn after the other

Every turn of a decoding loop goes at least one byte further, so the loops come to an end,
and what a loop does with two parts of its bytes is what it does with the one and then with
the other.
-/

namespace CrossOver.Lua.Pb

open CrossOver.Lib

namespace Decode

section Beyond

variable {conv : Conversions} {db : Database} {opts : Options}
  {nested : Ty → Slice → List Entry → Except Failure (List Entry)} {f : Field} {s t : Slice}
  {tag : UInt32} {value : LuaValue} {entries later : List Entry}

theorem rawfield_beyond (found : rawfield conv db opts nested f s = .ok (value, t)) :
    t.Beyond s := by
  unfold rawfield at found
  split at found
  case h_1 =>
      rcases bind_eq_ok.mp found with ⟨number, spelled, equal⟩
      rcases number with - | ⟨v, u⟩
      · cases equal
      · cases equal
        exact readvarint64_beyond spelled
  case h_2 =>
      rcases bind_eq_ok.mp found with ⟨⟨sv, u⟩, read, made⟩
      have same : u = t := by
        simp only at made
        split at made
        · cases made
          rfl
        · split at made
          · cases made
            rfl
          · rcases bind_eq_ok.mp made with ⟨inner, -, equal⟩
            cases equal
            rfl
      exact same ▸ lpbReadbytes_beyond read
  case h_3 => exact readtype_beyond found

theorem field_beyond (found : field conv db opts nested f tag s = .ok (value, t)) :
    t.Beyond s := by
  unfold field at found
  split at found
  · exact rawfield_beyond found
  · cases found

theorem map_beyond {type : Ty} (found : map conv db opts nested f type entries s = .ok (later, t)) :
    t.Beyond s := by
  rcases bind_eq_ok.mp found with ⟨inner, -, found⟩
  rcases bind_eq_ok.mp found with ⟨⟨p, u⟩, read, found⟩
  rcases bind_eq_ok.mp found with ⟨⟨key, value⟩, -, found⟩
  rcases bind_eq_ok.mp found with ⟨inner', -, equal⟩
  cases equal
  exact lpbReadbytes_beyond read

theorem repeated_beyond (found : repeated conv db opts nested f entries tag s = .ok (later, t)) :
    t.Beyond s := by
  rcases bind_eq_ok.mp found with ⟨inner, -, found⟩
  split at found
  · rcases bind_eq_ok.mp found with ⟨⟨value, u⟩, read, equal⟩
    cases equal
    exact field_beyond read
  · rcases bind_eq_ok.mp found with ⟨⟨p, u⟩, read, found⟩
    rcases bind_eq_ok.mp found with ⟨⟨inner', len⟩, -, equal⟩
    cases equal
    exact lpbReadbytes_beyond read

/-- A half of an entry, when the type has a field for it. -/
theorem mapPart_beyond {u : Slice} {part : Option Field} {later : MapState}
    {g : LuaValue → MapState} (beyond : u.Beyond s) (found : (match part with
      | none => .error .outside
      | some f => do
          let read ← field conv db opts nested f tag u
          return some (g read.1, read.2)) = Except.ok (some (later, t))) : t.Beyond s := by
  split at found
  · cases found
  · rcases bind_eq_ok.mp found with ⟨⟨value, v⟩, inside, equal⟩
    cases equal
    exact beyond.trans (field_beyond inside)

end Beyond

section Eats

variable (conv : Conversions) (db : Database) (opts : Options)
  (nested : Ty → Slice → List Entry → Except Failure (List Entry))

theorem mapTurn_eats (type : Ty) : Eats sliceSize (mapTurn conv db opts nested type) := by
  intro s state later rest turned
  rcases bind_eq_ok.mp turned with ⟨number, spelled, turned⟩
  rcases number with - | ⟨tag, u⟩
  · cases turned
  · have beyond := readvarint32_beyond spelled
    simp only at turned
    split at turned
    · exact (mapPart_beyond (g := fun value => (some value, state.2)) beyond turned).shorter
    · split at turned
      · exact (mapPart_beyond (g := fun value => (state.1, some value)) beyond turned).shorter
      · cases turned
        exact beyond.shorter

theorem packedTurn_eats (f : Field) : Eats sliceSize (packedTurn conv db opts nested f) := by
  intro s state later rest turned
  unfold packedTurn at turned
  split at turned
  · cases turned
  · rcases bind_eq_ok.mp turned with ⟨⟨value, u⟩, read, equal⟩
    cases equal
    exact (rawfield_beyond read).shorter

theorem turn_eats (t : Ty) : Eats sliceSize (turn conv db opts nested t) := by
  intro s entries later rest turned
  rcases bind_eq_ok.mp turned with ⟨number, spelled, turned⟩
  rcases number with - | ⟨tag, u⟩
  · cases turned
  · have beyond := readvarint32_beyond spelled
    simp only at turned
    split at turned
    case h_1 =>
        rcases bind_eq_ok.mp turned with ⟨after, skipped, equal⟩
        cases equal
        exact lt_of_le_of_lt (skipvalue_shorter skipped) beyond.shorter
    case h_2 =>
        split at turned
        case h_1 =>
            rcases bind_eq_ok.mp turned with ⟨⟨entries, v⟩, read, equal⟩
            cases equal
            exact (beyond.trans (map_beyond read)).shorter
        case h_2 =>
            split at turned
            · rcases bind_eq_ok.mp turned with ⟨⟨entries, v⟩, read, equal⟩
              cases equal
              exact (beyond.trans (repeated_beyond read)).shorter
            · rcases bind_eq_ok.mp turned with ⟨⟨value, v⟩, read, equal⟩
              cases equal
              exact (beyond.trans (field_beyond read)).shorter

end Eats

end Decode

section Carries

variable {State Item : Type} {next : Slice → State → Except Failure (Option (State × Slice))}

/-- The loop that meets the bytes acts on its state and goes on behind them. -/
def Carries (next : Slice → State → Except Failure (Option (State × Slice))) (bytes : Bytes)
    (act : State → Except Failure State) : Prop :=
  ∀ pos rest state, consume .fuel Decode.sliceSize next ⟨pos, bytes ++ rest⟩ state =
    act state >>= consume .fuel Decode.sliceSize next ⟨pos + bytes.length, rest⟩

theorem Carries.nothing : Carries next [] pure := fun _ _ _ => rfl

theorem Carries.andThen {first second : Bytes} {f g : State → Except Failure State}
    (left : Carries next first f) (right : Carries next second g) :
    Carries next (first ++ second) fun state => f state >>= g := by
  intro pos rest state
  rw [List.append_assoc, left, bind_assoc, List.length_append, ← Nat.add_assoc]
  congr 1
  funext later
  exact right _ _ _

theorem Carries.turn (eats : Eats Decode.sliceSize next) {bytes : Bytes}
    {act : State → Except Failure State} (turn : ∀ pos rest state,
      next ⟨pos, bytes ++ rest⟩ state =
        act state >>= fun later => .ok (some (later, ⟨pos + bytes.length, rest⟩))) :
    Carries next bytes act := by
  intro pos rest state
  have item := turn pos rest state
  cases acted : act state with
  | error e =>
      rw [acted] at item
      exact consume_error item
  | ok later =>
      rw [acted] at item
      exact consume_some eats item

/-- The loop over these bytes alone. -/
theorem Carries.whole (stops : ∀ pos state, next ⟨pos, []⟩ state = .ok none) {bytes : Bytes}
    {act : State → Except Failure State} (carries : Carries next bytes act) (pos : Nat)
    (state : State) : consume .fuel Decode.sliceSize next ⟨pos, bytes⟩ state = act state := by
  have run := carries pos [] state
  rw [List.append_nil] at run
  rw [run]
  cases act state with
  | error e => rfl
  | ok later => exact consume_none (stops _ _)

/-- What has been appended to a buffer carries the loop. -/
def Adds (next : Slice → State → Except Failure (Option (State × Slice))) (b out : Bytes)
    (act : State → Except Failure State) : Prop :=
  ∃ piece, out = b ++ piece ∧ (piece.length ≤ maxSizet → Carries next piece act)

theorem Adds.nothing {b : Bytes} : Adds next b b pure :=
  ⟨[], (List.append_nil b).symm, fun _ => .nothing⟩

theorem Adds.andThen {b middle out : Bytes} {f g : State → Except Failure State}
    (first : Adds next b middle f) (second : Adds next middle out g) :
    Adds next b out fun state => f state >>= g := by
  rcases first with ⟨front, rfl, left⟩
  rcases second with ⟨back, rfl, right⟩
  refine ⟨front ++ back, List.append_assoc .., fun short => ?_⟩
  rw [List.length_append] at short
  exact (left (by omega)).andThen (right (by omega))

/-- A loop that appends item by item. -/
theorem Adds.foldlM {step : Bytes → Item → Except Failure Bytes}
    {act : State → Item → Except Failure State}
    (each : ∀ b item out, step b item = .ok out → Adds next b out (act · item))
    {items : List Item} {b out : Bytes} (folded : items.foldlM step b = .ok out) :
    Adds next b out fun state => items.foldlM act state := by
  induction items generalizing b with
  | nil =>
      cases folded
      exact .nothing
  | cons item items inductionHypothesis =>
      rw [List.foldlM_cons] at folded
      rcases bind_eq_ok.mp folded with ⟨middle, first, rest⟩
      simp only [List.foldlM_cons]
      exact (each _ _ _ first).andThen (inductionHypothesis rest)

end Carries

end CrossOver.Lua.Pb
