import CrossOver.Lua.Pb.Fields

/-!
# `lua_pb`: messages come back

Every function of the encoder appends bytes over which the loop of the decoder does what
the meaning of the encoded value says.
-/

namespace CrossOver.Lua.Pb

open CrossOver.Lib

variable {conv : Conversions} {db : Database} (opts : Options)
  {nestedE : Option Ty → List Entry → Bytes → Except Failure Bytes}
  {nestedD : Ty → Slice → List Entry → Except Failure (List Entry)}
  {nestedM : Ty → List Entry → List Entry → Except Failure (List Entry)}

section Tagged

variable {t : Ty} {f : Field} {value : LuaValue} {b out : Bytes}

theorem tagfield_read (agrees : Agrees db nestedE nestedD nestedM) (formed : f.WellFormed db)
    {ignorezero : Bool}
    (encoded : Encode.tagfield conv db nestedE f ignorezero value b = .ok out) :
    ((ignorezero = true ∧ Meaning.isZero conv f.typeId value = true) ∧ out = b) ∨
      (¬ (ignorezero = true ∧ Meaning.isZero conv f.typeId value = true) ∧
        ∃ bytes, out = b ++ (Encode.tag f f.typeId.wtype ++ bytes) ∧
          Read conv db opts nestedD f bytes (Meaning.value conv db opts nestedM f value)) := by
  rcases bind_eq_ok.mp encoded with ⟨⟨whole, ignored⟩, written, equal⟩
  rcases field_read opts agrees formed written with ⟨bytes, rfl, rfl, read⟩
  have size : bytes.length ≠ 0 := by simpa using read.nonempty
  by_cases dropped : ignorezero = true ∧ Meaning.isZero conv f.typeId value = true
  · refine .inl ⟨dropped, ?_⟩
    cases equal
    simp only [dropped.1, dropped.2, if_true, and_true, if_pos size]
    rw [List.append_assoc, List.length_append, List.length_append, Nat.add_comm bytes.length,
      Nat.add_sub_cancel, List.take_left]
  · refine .inr ⟨dropped, bytes, ?_, read⟩
    cases equal
    rw [← List.append_assoc]
    apply if_neg
    rintro ⟨ignored, rfl⟩
    apply dropped
    refine ⟨rfl, ?_⟩
    by_contra kept
    exact ignored (if_neg kept)

theorem readvarint32_tag (type : WireType) (pos : Nat) (more : Bytes) :
    readvarint32 ⟨pos, Encode.tag f type ++ more⟩ =
      .ok (some (pair f.number.toUInt32 type, ⟨pos + (Encode.tag f type).length, more⟩)) :=
  readvarint32_write32 _ _ _

/-- A field whose tag leads to a turn that reads it. -/
theorem tagfield_adds {State : Type}
    {next : Slice → State → Except Failure (Option (State × Slice))}
    (eats : Eats Decode.sliceSize next) (agrees : Agrees db nestedE nestedD nestedM)
    (formed : f.WellFormed db) {ignorezero : Bool} {act : State → Except Failure State}
    (leads : ∀ bytes, Read conv db opts nestedD f bytes
      (Meaning.value conv db opts nestedM f value) → bytes.length ≤ maxSizet →
      ¬ (ignorezero = true ∧ Meaning.isZero conv f.typeId value = true) → ∀ pos rest state,
        next ⟨pos, Encode.tag f f.typeId.wtype ++ (bytes ++ rest)⟩ state =
          act state >>= fun later => .ok (some (later,
            ⟨pos + (Encode.tag f f.typeId.wtype).length + bytes.length, rest⟩)))
    (zeros : ignorezero = true ∧ Meaning.isZero conv f.typeId value = true → act = pure)
    (encoded : Encode.tagfield conv db nestedE f ignorezero value b = .ok out) :
    Adds next b out act := by
  rcases tagfield_read opts agrees formed encoded with
    ⟨dropped, rfl⟩ | ⟨kept, bytes, rfl, read⟩
  · rw [zeros dropped]
    exact .nothing
  · refine ⟨_, rfl, fun short => Carries.turn eats fun pos rest state => ?_⟩
    rw [List.length_append] at short
    rw [List.append_assoc, leads bytes read (by omega) kept, List.length_append, Nat.add_assoc]

theorem turn_tag (formed : t.WellFormed db) (member : f ∈ t.fields) (type : WireType) (pos : Nat)
    (more : Bytes) (entries : List Entry) :
    Decode.turn conv db opts nestedD t ⟨pos, Encode.tag f type ++ more⟩ entries =
      match (db.typeOf f).filter (·.isMap) with
      | some entryType => some <$>
          Decode.map conv db opts nestedD f entryType entries
            ⟨pos + (Encode.tag f type).length, more⟩
      | none =>
          if f.repeated then some <$>
            Decode.repeated conv db opts nestedD f entries (pair f.number.toUInt32 type)
              ⟨pos + (Encode.tag f type).length, more⟩
          else (fun found : LuaValue × Slice =>
              some (setSlot entries (.string f.name) found.1, found.2)) <$>
            Decode.field conv db opts nestedD f (pair f.number.toUInt32 type)
              ⟨pos + (Encode.tag f type).length, more⟩ := by
  rw [Decode.turn, readvarint32_tag, ok_bind]
  simp only [formed.field_tag member]
  rfl

theorem field_tag (formed : t.WellFormed db) (member : f ∈ t.fields) (s : Slice) :
    Decode.field conv db opts nestedD f (pair f.number.toUInt32 f.typeId.wtype) s =
      Decode.rawfield conv db opts nestedD f s := by
  rw [Decode.field, if_pos (formed.gettype_tag member _).symm]

end Tagged

section Entries

variable {t : Ty} {f : Field} {value : LuaValue} {b out : Bytes}

theorem filter_isMap (plain : ¬ (db.typeOf f).any (·.isMap) = true) :
    (db.typeOf f).filter (·.isMap) = none := by
  cases points : db.typeOf f with
  | none => rfl
  | some type =>
      rw [points] at plain
      exact if_neg plain

theorem single_adds (agrees : Agrees db nestedE nestedD nestedM) (formed : db.WellFormed)
    (formedType : t.WellFormed db) (member : f ∈ t.fields)
    (plain : ¬ (db.typeOf f).any (·.isMap) = true) (once : ¬ f.repeated = true)
    {ignorezero : Bool}
    (encoded : Encode.tagfield conv db nestedE f ignorezero value b = .ok out) :
    Adds (Decode.turn conv db opts nestedD t) b out
      (Meaning.single conv db opts nestedM f ignorezero · value) := by
  refine tagfield_adds opts (Decode.turn_eats _ _ _ _ _) agrees (formed.field formedType member)
    ?leads ?zeros encoded
  case leads =>
      intro bytes read short kept pos rest entries
      rw [turn_tag opts formedType member, filter_isMap plain]
      simp only [if_neg once, field_tag opts formedType member, read.read short, Meaning.single,
        if_neg kept]
      cases Meaning.value conv db opts nestedM f value <;> rfl
  case zeros =>
      intro dropped
      funext entries
      exact if_pos dropped

theorem element_adds (agrees : Agrees db nestedE nestedD nestedM) (formed : db.WellFormed)
    (formedType : t.WellFormed db) (member : f ∈ t.fields)
    (plain : ¬ (db.typeOf f).any (·.isMap) = true) (many : f.repeated = true)
    (unpacked : ¬ f.packed = true)
    (encoded : Encode.tagfield conv db nestedE f false value b = .ok out) :
    Adds (Decode.turn conv db opts nestedD t) b out
      (Meaning.element conv db opts nestedM f · value) := by
  refine tagfield_adds opts (Decode.turn_eats _ _ _ _ _) agrees (formed.field formedType member)
    ?leads (fun zeros => absurd zeros.1 (by decide)) encoded
  intro bytes read short kept pos rest entries
  have alone : gettype (pair f.number.toUInt32 f.typeId.wtype) ≠ .bytes ∨
      ((!f.packed) = true ∧ f.typeId.wtype = .bytes) := by
    rw [formedType.gettype_tag member, Bool.not_eq_true', ← Bool.not_eq_true]
    by_cases slice : f.typeId.wtype = .bytes
    · exact .inr ⟨unpacked, slice⟩
    · exact .inl slice
  rw [turn_tag opts formedType member, filter_isMap plain]
  simp only [if_pos many, Decode.repeated, if_pos alone, field_tag opts formedType member,
    read.read short, Meaning.element]
  cases Decode.fetchtable f entries with
  | error e => rfl
  | ok inner => cases Meaning.value conv db opts nestedM f value <;> rfl

theorem packed_elements (agrees : Agrees db nestedE nestedD nestedM) (formed : f.WellFormed db)
    {values : List LuaValue} (encoded : values.foldlM (fun inner value => do
      let (inner, _) ← Encode.field conv db nestedE f value inner
      return inner) b = .ok out) :
    Adds (Decode.packedTurn conv db opts nestedD f) b out fun state =>
      values.foldlM (fun (state : List Entry × Nat) item => do
        let made ← Meaning.value conv db opts nestedM f item
        return (setSlot state.1 (.integer (.ofInt (state.2 + 1))) made, state.2 + 1)) state := by
  refine Adds.foldlM ?each encoded
  intro b value out written
  rcases bind_eq_ok.mp written with ⟨⟨inner, ignored⟩, written, equal⟩
  cases equal
  rcases field_read opts agrees formed written with ⟨bytes, rfl, -, read⟩
  refine ⟨bytes, rfl, fun short => Carries.turn (Decode.packedTurn_eats _ _ _ _ _) ?_⟩
  intro pos rest state
  have some' : bytes ++ rest ≠ [] := by simp [read.nonempty]
  rw [Decode.packedTurn, if_neg some', read.read short]
  cases Meaning.value conv db opts nestedM f value <;> rfl

theorem packed_adds (agrees : Agrees db nestedE nestedD nestedM) (formed : db.WellFormed)
    (formedType : t.WellFormed db) (member : f ∈ t.fields)
    (plain : ¬ (db.typeOf f).any (·.isMap) = true) (many : f.repeated = true)
    (packed : f.packed = true) {values : List LuaValue} {whole : Bytes}
    (encoded : values.foldlM (fun inner value => do
      let (inner, _) ← Encode.field conv db nestedE f value inner
      return inner) (b ++ Encode.tag f .bytes) = .ok whole) :
    Adds (Decode.turn conv db opts nestedD t) b
      (addlength whole (b ++ Encode.tag f .bytes).length)
      (Meaning.packed conv db opts nestedM f · values) := by
  rcases packed_elements opts agrees (formed.field formedType member) encoded with ⟨piece, rfl, carries⟩
  refine ⟨Encode.tag f .bytes ++ (write64 (UInt64.ofNat piece.length) ++ piece), ?_, fun short =>
    Carries.turn (Decode.turn_eats _ _ _ _ _) fun pos rest entries => ?_⟩
  · rw [addlength_append, List.append_assoc]
  · have inside : piece.length ≤ maxSizet := by
      simp only [List.length_append] at short
      omega
    have together : ¬ (gettype (pair f.number.toUInt32 .bytes) ≠ .bytes ∨
        ((!f.packed) = true ∧ f.typeId.wtype = .bytes)) := by
      rw [formedType.gettype_tag member, packed]
      rintro (other | ⟨unpacked, -⟩)
      · exact other rfl
      · cases unpacked
    have stops : ∀ pos state, Decode.packedTurn conv db opts nestedD f ⟨pos, []⟩ state =
        .ok none := fun pos state => if_pos rfl
    rw [List.append_assoc, turn_tag opts formedType member, filter_isMap plain]
    simp only [if_pos many, Decode.repeated, if_neg together, lpbReadbytes_write64 inside, ok_bind,
      (carries inside).whole stops, Meaning.packed, List.length_append, Nat.add_assoc]
    cases Decode.fetchtable f entries with
    | error e => rfl
    | ok inner =>
        simp only [ok_bind]
        generalize (List.foldlM _ (inner, conv.rawlen inner) values :
          Except Failure (List Entry × Nat)) = made
        cases made <;> rfl

end Entries

section Maps

variable {type : Ty} {f : Field} {b out : Bytes}

def partAct (conv : Conversions) (db : Database) (opts : Options)
    (nestedM : Ty → List Entry → List Entry → Except Failure (List Entry)) (f : Field)
    (part : LuaValue) (update : Decode.MapState → LuaValue → Decode.MapState)
    (state : Decode.MapState) : Except Failure Decode.MapState :=
  if Meaning.isZero conv f.typeId part then .ok state
  else do
    let made ← Meaning.value conv db opts nestedM f part
    return update state made

def setKey (state : Decode.MapState) (key : LuaValue) : Decode.MapState := (some key, state.2)

def setValue (state : Decode.MapState) (value : LuaValue) : Decode.MapState :=
  (state.1, some value)

theorem mapTurn_tag (formed : type.WellFormed db) {number : Int32}
    {update : Decode.MapState → LuaValue → Decode.MapState}
    (place : (number, update) = (1, setKey) ∨ (number, update) = (2, setValue))
    (found : type.field number = some f) (pos : Nat) (more : Bytes) (state : Decode.MapState) :
    Decode.mapTurn conv db opts nestedD type ⟨pos, Encode.tag f f.typeId.wtype ++ more⟩ state =
      (fun found : LuaValue × Slice => some (update state found.1, found.2)) <$>
        Decode.rawfield conv db opts nestedD f
          ⟨pos + (Encode.tag f f.typeId.wtype).length, more⟩ := by
  rcases Ty.field_mem found with ⟨member, same⟩
  rw [Decode.mapTurn, readvarint32_tag, ok_bind]
  simp only [formed.gettag_tag member]
  rcases place with equal | equal
  · cases equal
    have one : f.number.toUInt32 = 1 := same ▸ rfl
    simp only [if_pos one, found, field_tag opts formed member]
    rfl
  · cases equal
    have two : f.number.toUInt32 = 2 := same ▸ rfl
    have notOne : ¬ f.number.toUInt32 = 1 := by
      rw [two]
      decide
    simp only [if_neg notOne, if_pos two, found, field_tag opts formed member]
    rfl

theorem part_adds (agrees : Agrees db nestedE nestedD nestedM) (formed : db.WellFormed)
    (formedType : type.WellFormed db) {number : Int32}
    {update : Decode.MapState → LuaValue → Decode.MapState}
    (place : (number, update) = (1, setKey) ∨ (number, update) = (2, setValue))
    (found : type.field number = some f) {part : LuaValue}
    (encoded : Encode.tagfield conv db nestedE f true part b = .ok out) :
    Adds (Decode.mapTurn conv db opts nestedD type) b out
      (partAct conv db opts nestedM f part update) := by
  have formedPart := formed.field formedType (Ty.field_mem found).1
  refine tagfield_adds opts (Decode.mapTurn_eats _ _ _ _ _) agrees formedPart ?leads ?zeros encoded
  case leads =>
      intro bytes read short kept pos rest state
      have written : ¬ Meaning.isZero conv f.typeId part = true := fun zero => kept ⟨rfl, zero⟩
      rw [mapTurn_tag opts formedType place found, read.read short, partAct, if_neg written]
      cases Meaning.value conv db opts nestedM f part <;> rfl
  case zeros =>
      rintro ⟨-, zero⟩
      funext state
      exact if_pos zero

/-- The two parts, with the defaults for those that are not there. -/
theorem parts_meaning {kf vf : Field} (hasKey : type.field 1 = some kf)
    (hasValue : type.field 2 = some vf) (pair : Entry) {Result : Type}
    (go : Option LuaValue → Option LuaValue → Except Failure Result) :
    (partAct conv db opts nestedM kf pair.1 setKey (none, none) >>= fun state =>
        partAct conv db opts nestedM vf pair.2 setValue state >>= fun state =>
      go (state.1.or (Decode.mapDefault conv db opts type 1))
        (state.2.or (Decode.mapDefault conv db opts type 2))) =
    (Meaning.mapPart conv db opts nestedM kf pair.1 >>= fun key =>
      Meaning.mapPart conv db opts nestedM vf pair.2 >>= fun value => go key value) := by
  have zero {f : Field} {part : LuaValue} {update : Decode.MapState → LuaValue → Decode.MapState}
      {state : Decode.MapState} (zero : Meaning.isZero conv f.typeId part = true) :
      partAct conv db opts nestedM f part update state = .ok state := if_pos zero
  have written {f : Field} {part : LuaValue}
      {update : Decode.MapState → LuaValue → Decode.MapState} {state : Decode.MapState}
      (kept : ¬ Meaning.isZero conv f.typeId part = true) :
      partAct conv db opts nestedM f part update state =
        Meaning.value conv db opts nestedM f part >>= fun made => .ok (update state made) :=
    if_neg kept
  unfold Meaning.mapPart Decode.mapDefault
  rw [hasKey, hasValue]
  by_cases zeroKey : Meaning.isZero conv kf.typeId pair.1 = true
  · rw [zero zeroKey, ok_bind, if_pos zeroKey, ok_bind]
    by_cases zeroValue : Meaning.isZero conv vf.typeId pair.2 = true
    · rw [zero zeroValue, ok_bind, if_pos zeroValue, ok_bind]
      rfl
    · rw [written zeroValue, if_neg zeroValue]
      cases Meaning.value conv db opts nestedM vf pair.2 <;> rfl
  · rw [written zeroKey, if_neg zeroKey]
    cases Meaning.value conv db opts nestedM kf pair.1 with
    | error e => rfl
    | ok key =>
        rw [ok_bind, ok_bind]
        by_cases zeroValue : Meaning.isZero conv vf.typeId pair.2 = true
        · rw [zero zeroValue, ok_bind, if_pos zeroValue]
          rfl
        · rw [written zeroValue, if_neg zeroValue]
          cases Meaning.value conv db opts nestedM vf pair.2 <;> rfl

theorem mapEntry_adds {t : Ty} (agrees : Agrees db nestedE nestedD nestedM) (formed : db.WellFormed)
    (formedType : t.WellFormed db) (member : f ∈ t.fields) (points : db.typeOf f = some type)
    (isMap : type.isMap = true) {kf vf : Field} (hasKey : type.field 1 = some kf)
    (hasValue : type.field 2 = some vf) {pair : Entry}
    (encoded : Encode.mapEntry conv db nestedE f kf vf b pair = .ok out) :
    Adds (Decode.turn conv db opts nestedD t) b out
      (Meaning.mapEntry conv db opts nestedM f kf vf · pair) := by
  have formedEntry := formed.map formedType member points isMap
  rcases bind_eq_ok.mp encoded with ⟨middle, first, encoded⟩
  rcases bind_eq_ok.mp encoded with ⟨whole, second, equal⟩
  cases equal
  have parts := (part_adds opts agrees formed formedEntry (.inl rfl) hasKey first).andThen
    (part_adds opts agrees formed formedEntry (.inr rfl) hasValue second)
  rcases parts with ⟨piece, rfl, carries⟩
  refine ⟨Encode.tag f .bytes ++ (write64 (UInt64.ofNat piece.length) ++ piece), ?_, fun short =>
    Carries.turn (Decode.turn_eats _ _ _ _ _) fun pos rest entries => ?_⟩
  · rw [addlength_append, List.append_assoc]
  · have inside : piece.length ≤ maxSizet := by
      simp only [List.length_append] at short
      omega
    have stops : ∀ pos state, Decode.mapTurn conv db opts nestedD type ⟨pos, []⟩ state =
        .ok none := fun _ _ => rfl
    rw [List.append_assoc, turn_tag opts formedType member, points, Option.filter, if_pos isMap]
    simp only [Decode.map, lpbReadbytes_write64 inside, ok_bind, (carries inside).whole stops,
      Meaning.mapEntry, List.length_append, Nat.add_assoc]
    cases Decode.fetchtable f entries with
    | error e => rfl
    | ok inner =>
        simp only [ok_bind, map_eq_pure_bind, bind_assoc, pure_bind]
        exact parts_meaning opts hasKey hasValue pair fun key value =>
          Decode.assign inner key value >>= fun inner => .ok (some (setSlot entries
            (.string f.name) (newTable conv inner), _))

end Maps

section Whole

variable {t : Ty} {b out : Bytes}

theorem map_adds {f : Field} {value : LuaValue} (agrees : Agrees db nestedE nestedD nestedM)
    (formed : db.WellFormed) (formedType : t.WellFormed db) (member : f ∈ t.fields)
    (isMap : (db.typeOf f).any (·.isMap) = true)
    (encoded : Encode.map conv db nestedE f value b = .ok out) :
    Adds (Decode.turn conv db opts nestedD t) b out fun entries =>
      match (db.typeOf f).bind (·.field 1), (db.typeOf f).bind (·.field 2) with
      | some kf, some vf =>
          (Meaning.entriesOf value).foldlM (Meaning.mapEntry conv db opts nestedM f kf vf) entries
      | _, _ => .ok entries := by
  rcases (Option.any_eq_true _ _).mp isMap with ⟨type, points, isMap⟩
  unfold Encode.map at encoded
  cases hasKey : (db.typeOf f).bind (·.field 1) with
  | none =>
      rw [hasKey] at encoded
      cases encoded
      exact .nothing
  | some kf =>
      cases hasValue : (db.typeOf f).bind (·.field 2) with
      | none =>
          rw [hasKey, hasValue] at encoded
          cases encoded
          exact .nothing
      | some vf =>
          rw [hasKey, hasValue] at encoded
          rcases bind_eq_ok.mp encoded with ⟨entries, checked, folded⟩
          rcases checktable_eq_ok checked with ⟨metatable, length, rfl⟩
          rw [points] at hasKey hasValue
          refine Adds.foldlM (fun b pair out written => ?_) folded
          exact mapEntry_adds opts agrees formed formedType member points isMap hasKey hasValue
            written

theorem repeated_adds {f : Field} {value : LuaValue} (agrees : Agrees db nestedE nestedD nestedM)
    (formed : db.WellFormed) (formedType : t.WellFormed db) (member : f ∈ t.fields)
    (plain : ¬ (db.typeOf f).any (·.isMap) = true) (many : f.repeated = true)
    (encoded : Encode.repeated conv db nestedE f value b = .ok out) :
    Adds (Decode.turn conv db opts nestedD t) b out fun entries =>
      let items := elements (Meaning.entriesOf value) (Meaning.entriesOf value).length 1
      if f.packed then Meaning.packed conv db opts nestedM f entries items
      else items.foldlM (Meaning.element conv db opts nestedM f) entries := by
  rcases bind_eq_ok.mp encoded with ⟨entries, checked, written⟩
  rcases checktable_eq_ok checked with ⟨metatable, length, rfl⟩
  by_cases packed : f.packed = true
  · simp only [if_pos packed] at written ⊢
    rcases bind_eq_ok.mp written with ⟨whole, folded, equal⟩
    cases equal
    exact packed_adds opts agrees formed formedType member plain many packed folded
  · simp only [if_neg packed] at written ⊢
    refine Adds.foldlM (fun b item out written => ?_) written
    exact element_adds opts agrees formed formedType member plain many packed written

theorem entry_adds (agrees : Agrees db nestedE nestedD nestedM) (formed : db.WellFormed)
    (formedType : t.WellFormed db) {item : Entry}
    (encoded : Encode.entry conv db nestedE t b item = .ok out) :
    Adds (Decode.turn conv db opts nestedD t) b out
      (Meaning.entry conv db opts nestedM t · item) := by
  rcases item with ⟨key, value⟩
  cases key with
  | string name =>
      simp only [Encode.entry, Meaning.entry] at encoded ⊢
      cases named : t.fname name with
      | none =>
          simp only [named] at encoded ⊢
          cases encoded
          exact .nothing
      | some f =>
          have member := (Ty.fname_mem named).1
          simp only [named] at encoded ⊢
          split at encoded
          case isTrue isMap =>
              simp only [if_pos isMap]
              exact map_adds opts agrees formed formedType member isMap encoded
          case isFalse plain =>
              simp only [if_neg plain]
              split at encoded
              case isTrue many =>
                  simp only [if_pos many]
                  exact repeated_adds opts agrees formed formedType member plain many encoded
              case isFalse once =>
                  simp only [if_neg once]
                  split at encoded
                  case isTrue alive =>
                      simp only [if_pos alive]
                      exact single_adds opts agrees formed formedType member plain once encoded
                  case isFalse dead =>
                      cases encoded
                      simp only [if_neg dead]
                      exact .nothing
  | _ =>
      cases encoded
      exact .nothing

theorem message_adds (agrees : Agrees db nestedE nestedD nestedM) (formed : db.WellFormed)
    (formedType : t.WellFormed db) {entries : List Entry}
    (encoded : Encode.message conv db nestedE (some t) entries b = .ok out) :
    Adds (Decode.turn conv db opts nestedD t) b out
      fun start => Meaning.message conv db opts nestedM t entries start := by
  have each : ∀ b item out, Encode.entry conv db nestedE t b item = .ok out →
      Adds (Decode.turn conv db opts nestedD t) b out
        (Meaning.entry conv db opts nestedM t · item) :=
    fun b item out => entry_adds opts agrees formed formedType
  exact Adds.foldlM each encoded

theorem turn_stops (pos : Nat) (entries : List Entry) :
    Decode.turn conv db opts nestedD t ⟨pos, []⟩ entries = .ok none := rfl

theorem agrees_step (agrees : Agrees db nestedE nestedD nestedM) (formed : db.WellFormed) :
    Agrees db (Encode.message conv db nestedE) (Decode.message conv db opts nestedD)
      (Meaning.message conv db opts nestedM) := by
  intro type entries b out formedType encoded
  cases type with
  | none =>
      cases encoded
      exact ⟨[], (List.append_nil b).symm, nofun⟩
  | some t =>
      rcases message_adds opts agrees formed (formedType t rfl) encoded with
        ⟨piece, rfl, carries⟩
      refine ⟨piece, rfl, ?_⟩
      intro u same short pos start
      cases same
      exact (carries short).whole (turn_stops opts) pos start

theorem agrees_run (conv : Conversions) (formed : db.WellFormed) (depth : Nat) :
    Agrees db (encode conv db depth) (decode conv db opts depth) (meaning conv db opts depth) := by
  induction depth with
  | zero => exact fun type entries b out formedType encoded => nomatch encoded
  | succ depth inductionHypothesis => exact agrees_step opts inductionHypothesis formed

end Whole

end CrossOver.Lua.Pb
