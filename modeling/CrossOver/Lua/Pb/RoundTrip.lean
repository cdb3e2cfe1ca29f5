import CrossOver.Lua.Pb.Commands
import CrossOver.Lua.Pb.Messages

/-!
# `lua_pb`: encoded messages come back

With a command number in front of the message or without.  What an encoder of a newer type
has added is stepped over.
-/

namespace CrossOver.Lua.Pb

open CrossOver.Lib

variable {conv : Conversions} {db : Database} {t : Ty} {slots : Nat}

theorem maxBuffer_le : maxBuffer ≤ maxSizet := by decide

/-- What has been encoded comes back as its meaning, assigned to the table that is already
there. -/
theorem message_roundTrip (opts : Options) (formed : db.WellFormed) (formedType : t.WellFormed db)
    {cmd : Option UInt32} {entries : List Entry} {bytes : Bytes}
    (encoded : encodeMessage conv db slots t cmd entries = .ok bytes)
    (start : Option (List Entry)) :
    decodeMessage conv db opts slots t cmd.isSome bytes start =
      meaning conv db opts (levels slots) t entries
        (start.getD (pushtypetable conv db opts t)) := by
  rcases encodeMessage_eq_ok.mp encoded with ⟨written, fits⟩
  have formedSome : ∀ u, some t = some u → u.WellFormed db :=
    fun u same => Option.some.inj same ▸ formedType
  rcases agrees_run opts conv formed _ _ _ _ _ formedSome written with ⟨piece, rfl, same⟩
  have short := fits.trans maxBuffer_le
  rw [List.length_append] at short
  rw [decodeMessage_cmdBytes]
  exact same t rfl (by omega) _ _

namespace Sample

theorem person_formed : person.WellFormed database :=
  ⟨by decide, by decide, by decide +kernel, by decide +kernel⟩

theorem attrsEntry_formed : attrsEntry.WellFormed database :=
  ⟨by decide, by decide, by decide +kernel, by decide +kernel⟩

/-- One name of the enumeration has a negative number. -/
theorem database_formed : database.WellFormed
  | 0, _ => person_formed
  | 1, _ => attrsEntry_formed
  | _ + 2, message => absurd (show true = false from message) (by decide)

end Sample

theorem message_roundTrip_ann :
    decodeMessage plainConversions Sample.database Sample.options 19 Sample.person
        (some (9 : UInt32)).isSome
        [9, 0, 0, 0, 8, 7, 42, 2, 8, 1, 34, 1, 97, 34, 1, 98, 50, 5, 10, 1, 107, 16, 5, 56, 1]
        none =
      meaning plainConversions Sample.database Sample.options 4 Sample.person Sample.ann [] :=
  message_roundTrip Sample.options Sample.database_formed Sample.person_formed
    (by decide +kernel) none

/-- Well-formed fields that the type does not have. -/
inductive UnknownFields (t : Ty) : Bytes → Prop where
  | none : UnknownFields t []
  | field {digits bytes rest : Bytes} {value : UInt64} : Spells digits value →
      t.field (gettag value.toUInt32).toInt32 = none → WellFormed value.toUInt32 bytes →
      UnknownFields t rest → UnknownFields t (digits ++ bytes ++ rest)

theorem UnknownFields.carries {bytes : Bytes} (unknown : UnknownFields t bytes) (opts : Options)
    (nested : Ty → Slice → List Entry → Except Failure (List Entry)) :
    Carries (Decode.turn conv db opts nested t) bytes pure := by
  induction unknown with
  | none => exact .nothing
  | @field digits bytes rest value spelled missing formed _ inductionHypothesis =>
      have first : Carries (Decode.turn conv db opts nested t) (digits ++ bytes) pure := by
        refine Carries.turn (Decode.turn_eats _ _ _ _ _) fun pos more entries => ?_
        have tag : readvarint32 ⟨pos, digits ++ (bytes ++ more)⟩ =
            .ok (some (value.toUInt32, ⟨pos + digits.length, bytes ++ more⟩)) := by
          rw [readvarint32_eq, spelled.read]
          rfl
        have skipped := formed.skipvalue (2 * (bytes ++ more).length + 2) (pos + digits.length)
          more (by rw [List.length_append]; omega)
        rw [List.append_assoc, Decode.turn, tag, ok_bind, List.length_append, ← Nat.add_assoc]
        simp only [missing, skipped]
        rfl
      exact first.andThen inductionHypothesis

/-- Two messages in a row are merged, and unknown fields between them are stepped over. -/
theorem messages_merge (opts : Options) (formed : db.WellFormed) (formedType : t.WellFormed db)
    {cmd : Option UInt32} {entries more : List Entry} {front unknown back : Bytes}
    (encoded : encodeMessage conv db slots t cmd entries = .ok front)
    (stepped : UnknownFields t unknown)
    (encodedMore : encodeMessage conv db slots t none more = .ok back)
    (start : Option (List Entry)) :
    decodeMessage conv db opts slots t cmd.isSome (front ++ unknown ++ back) start =
      meaning conv db opts (levels slots) t entries (start.getD (pushtypetable conv db opts t)) >>=
        meaning conv db opts (levels slots) t more := by
  rcases encodeMessage_eq_ok.mp encoded with ⟨written, fits⟩
  rcases encodeMessage_eq_ok.mp encodedMore with ⟨writtenMore, fitsMore⟩
  have shortFront := fits.trans maxBuffer_le
  have shortBack := fitsMore.trans maxBuffer_le
  generalize deep : levels slots = depth at written writtenMore ⊢
  cases depth with
  | zero => cases written
  | succ depth =>
      have agrees := agrees_run opts conv formed depth
      rcases message_adds opts agrees formed formedType written with ⟨piece, rfl, first⟩
      rcases message_adds opts agrees formed formedType writtenMore with ⟨later, rfl, last⟩
      rw [List.length_append] at shortFront
      have whole := ((first (by omega)).andThen (stepped.carries opts _)).andThen
        (last shortBack)
      rw [List.append_assoc, List.append_assoc, decodeMessage_cmdBytes, ← List.append_assoc, deep]
      refine (whole.whole (turn_stops opts) _ _).trans ?_
      rw [bind_pure]
      rfl

/-- Behind the person stands a number in a field 15, and then her boss. -/
theorem messages_merge_boss :
    decodeMessage plainConversions Sample.database Sample.options 19 Sample.person false
        ([8, 7, 42, 2, 8, 1, 34, 1, 97, 34, 1, 98, 50, 5, 10, 1, 107, 16, 5, 56, 1] ++
          ([0x78] ++ [5] ++ []) ++ [8, 1]) none =
      meaning plainConversions Sample.database Sample.options 4 Sample.person Sample.ann [] >>=
        meaning plainConversions Sample.database Sample.options 4 Sample.person Sample.boss := by
  have spelled : Spells [0x78] 0x78 := fun pos rest => by
    have read := readvarint64_write64 0x78 pos rest
    rw [readvarint64_eq] at read
    exact Except.ok.inj read
  have digits : WellFormed 0x78 ([] ++ [5]) := .varint (by decide) nofun (by decide)
  have encoded : encodeMessage plainConversions Sample.database 19 Sample.person none
      Sample.ann = .ok [8, 7, 42, 2, 8, 1, 34, 1, 97, 34, 1, 98, 50, 5, 10, 1, 107, 16, 5, 56, 1] := by
    decide +kernel
  exact messages_merge Sample.options Sample.database_formed Sample.person_formed encoded
    (.field spelled (by decide +kernel) digits .none) (by decide +kernel) none

end CrossOver.Lua.Pb
