import CrossOver.Lua.Pb.Commands
import CrossOver.Lua.Pb.Turns

/-!
# `lua_pb`: any bytes can be decoded

With a regular schema the decoder gives a table or raises a Lua error, whatever the bytes
are, unless they nest messages deeper than the Lua stack has room for: it does not read
behind them, takes no value for a table that is none, and ends.
-/

namespace CrossOver.Lua.Pb

open CrossOver.Lib

/-- Names are unique, the fields of a map entry are there, and a list has no default. -/
structure Ty.Regular (db : Database) (t : Ty) : Prop where
  unique : ∀ f ∈ t.fields, t.fname f.name = some f
  maps : ∀ f ∈ t.fields, ∀ type ∈ db.typeOf f, type.isMap = true →
    f.repeated = true ∧ (type.field 1).isSome = true ∧ (type.field 2).isSome = true
  lists : ∀ f ∈ t.fields, f.repeated = true → f.defaultValue = none

def Database.Regular (db : Database) : Prop := ∀ n, (db.types n).Regular db

def isTable : LuaValue → Bool
  | .table .. => true
  | _ => false

/-- What is there for a repeated field is a table. -/
def Lists (t : Ty) (entries : List Entry) : Prop :=
  ∀ f ∈ t.fields, f.repeated = true → ∀ value, (LuaValue.string f.name, value) ∈ entries →
    isTable value = true

/-- The Lua errors, and the end of the Lua stack where messages may be so deep. -/
inductive Raised (deep : Prop) : Failure → Prop where
  | luaError (message : Bytes) : Raised deep (.luaError message)
  | stack : deep → Raised deep .stack

/-- A message of the type may have one of the other type in a field or a map. -/
inductive Ty.Has (db : Database) (t : Ty) : Ty → Prop where
  | field {f : Field} {type : Ty} : f ∈ t.fields → f.typeId = .message → db.typeOf f = some type →
      type.isMap = false → Has db t type
  | map {f part : Field} {entry type : Ty} : f ∈ t.fields → db.typeOf f = some entry →
      entry.isMap = true → part ∈ entry.fields → part.typeId = .message →
      db.typeOf part = some type → Has db t type

/-- No more than so many messages of the type and of those it has are in each other. -/
def Ty.Within (db : Database) : Nat → Ty → Prop
  | 0, _ => False
  | depth + 1, t => ∀ type, t.Has db type → Ty.Within db depth type

section Lists

variable {db : Database} {t : Ty} {f : Field} {entries : List Entry}

theorem getfield_mem {name : Bytes} (there : getfield entries name ≠ .nil) :
    (LuaValue.string name, getfield entries name) ∈ entries := by
  fun_induction getfield entries name with
  | case1 => exact absurd rfl there
  | case2 => simp
  | case3 key value rest other inductionHypothesis =>
      exact List.mem_cons_of_mem _ (inductionHypothesis there)
  | case4 head rest notString inductionHypothesis =>
      exact List.mem_cons_of_mem _ (inductionHypothesis there)

theorem Lists.fetchtable (lists : Lists t entries) (member : f ∈ t.fields)
    (many : f.repeated = true) : ∃ inner, Decode.fetchtable f entries = .ok inner := by
  unfold Decode.fetchtable
  split
  case h_1 => exact ⟨_, rfl⟩
  case h_2 => exact ⟨_, rfl⟩
  case h_3 notNil notTable =>
      have value := lists f member many _ (getfield_mem notNil)
      unfold isTable at value
      split at value
      case h_1 same => exact absurd same (notTable _ _ _)
      case h_2 => cases value

theorem Lists.setSlot (lists : Lists t entries) (regular : t.Regular db) (member : f ∈ t.fields)
    {value : LuaValue} (table : f.repeated = true → isTable value = true) :
    Lists t (setSlot entries (.string f.name) value) := by
  intro g memberOther many other among
  rcases mem_setSlot.mp among with ⟨old, -⟩ | ⟨-, equal⟩
  · exact lists g memberOther many other old
  · rcases Prod.mk.inj equal with ⟨name, rfl⟩
    have same : g = f := by
      have found := regular.unique g memberOther
      rw [LuaValue.string.inj name, regular.unique f member] at found
      exact (Option.some.inj found).symm
    exact table (same ▸ many)

theorem lists_nil : Lists t [] := fun _ _ _ _ among => nomatch among

theorem pushdefault_none {conv : Conversions} {opts : Options} (noDefault : f.defaultValue = none) :
    pushdefault conv db opts f false = none := by
  unfold pushdefault
  rw [noDefault]
  cases f.typeId
  case enum => cases db.typeOf f <;> rfl
  all_goals rfl

theorem pushdefault_list (regular : t.Regular db) (member : f ∈ t.fields)
    (many : f.repeated = true) {conv : Conversions} {opts : Options} {isProto3 : Bool}
    {value : LuaValue} (pushed : pushdefault conv db opts f isProto3 = some value) :
    isTable value = true := by
  cases isProto3 with
  | true =>
      rw [pushdefault, if_pos ⟨rfl, many⟩] at pushed
      cases pushed
      rfl
  | false =>
      rw [pushdefault_none (regular.lists f member many)] at pushed
      cases pushed

theorem Lists.setDefault (lists : Lists t entries) (regular : t.Regular db) (member : f ∈ t.fields)
    (conv : Conversions) (opts : Options) (isProto3 : Bool) :
    Lists t (setDefault conv db opts isProto3 entries f) := by
  unfold Pb.setDefault
  split
  case isFalse => exact lists
  case isTrue =>
      cases pushed : pushdefault conv db opts f isProto3 with
      | none => exact lists
      | some value =>
          exact lists.setSlot regular member fun many =>
            pushdefault_list regular member many pushed

theorem pushtypetable_lists (regular : t.Regular db) (conv : Conversions) (opts : Options) :
    Lists t (pushtypetable conv db opts t) := by
  unfold pushtypetable
  split
  case isFalse => exact lists_nil
  case isTrue =>
      exact List.foldlRecOn t.fields _ lists_nil fun entries lists f member =>
        lists.setDefault regular member conv opts t.isProto3

end Lists

section Reading

variable {conv : Conversions} {db : Database} {opts : Options} {deep : Prop}
  {nested : Ty → Slice → List Entry → Except Failure (List Entry)} {t : Ty} {f : Field}
  {s : Slice}

theorem lpbReadbytes_meets (s : Slice) :
    Meets (Raised deep) (fun found => found.1.data.length < s.data.length) (lpbReadbytes s) := by
  rw [lpbReadbytes, readvarint64_eq, ok_bind]
  cases read : readvarintSlow s with
  | none => exact .luaError _
  | some found =>
      rcases found with ⟨len, u⟩
      have shorter := (readvarintSlow_beyond read).shorter
      simp only
      split
      case isTrue => exact .luaError _
      case isFalse =>
          rw [readslice]
          split
          case h_2 => exact .luaError _
          case h_1 taken =>
              split at taken
              · cases taken
              · cases taken
                change (List.take _ _).length < _
                rw [List.length_take]
                omega

theorem readtype_meets (type : FieldType) (s : Slice) :
    Meets (Raised deep) (fun _ => True) (readtype conv opts type s) := by
  cases type
  case float | fixed32 | sfixed32 =>
      rw [readtype]
      cases readfixed32 s with
      | none => exact Raised.luaError _
      | some found => trivial
  case double | fixed64 | sfixed64 =>
      rw [readtype]
      cases readfixed64 s with
      | none => exact Raised.luaError _
      | some found => trivial
  case bytes | string | message => exact (lpbReadbytes_meets s).bind fun found _ => trivial
  case group => exact Raised.luaError _
  all_goals
    rw [readtype, readvarint64_eq, ok_bind]
    cases readvarintSlow s with
    | none => exact Raised.luaError _
    | some found => trivial

/-- The messages inside that have a type of `good`, if they are shorter. -/
def NestedMeets (db : Database) (deep : Prop) (good : Ty → Prop)
    (nested : Ty → Slice → List Entry → Except Failure (List Entry)) (size : Nat) : Prop :=
  ∀ type s entries, good type → s.data.length < size → type.Regular db → Lists type entries →
    Meets (Raised deep) (Lists type) (nested type s entries)

/-- Where a field is a message, it is one of `good`. -/
def Leads (db : Database) (good : Ty → Prop) (f : Field) : Prop :=
  f.typeId = .message → ∀ type ∈ db.typeOf f, good type

variable {size : Nat} {good : Ty → Prop}

theorem rawfield_meets (regular : db.Regular) (inside : NestedMeets db deep good nested size)
    (leads : Leads db good f) (short : s.data.length ≤ size) :
    Meets (Raised deep) (fun _ => True) (Decode.rawfield conv db opts nested f s) := by
  unfold Decode.rawfield
  split
  case h_1 =>
      rw [readvarint64_eq, ok_bind]
      cases readvarintSlow s with
      | none => exact .luaError _
      | some found => trivial
  case h_2 message =>
      refine (lpbReadbytes_meets s).bind fun found shorter => ?_
      rcases found with ⟨sv, u⟩
      cases points : db.typeOf f with
      | none => trivial
      | some type =>
          have regularType : type.Regular db := by
            rcases Option.map_eq_some_iff.mp points with ⟨n, -, rfl⟩
            exact regular n
          have begins := pushtypetable_lists regularType conv opts
          simp only
          split
          · trivial
          · exact (inside type sv _ (leads message type points) (lt_of_lt_of_le shorter short)
              regularType begins).bind fun _ _ => trivial
  case h_3 => exact readtype_meets _ s

theorem field_meets (regular : db.Regular) (inside : NestedMeets db deep good nested size)
    (leads : Leads db good f) (short : s.data.length ≤ size) (tag : UInt32) :
    Meets (Raised deep) (fun _ => True) (Decode.field conv db opts nested f tag s) := by
  unfold Decode.field
  split
  · exact rawfield_meets regular inside leads short
  · exact .luaError _

theorem mapTurn_meets (regular : db.Regular) (inside : NestedMeets db deep good nested size)
    {type : Ty} (leads : ∀ part ∈ type.fields, Leads db good part)
    (hasKey : (type.field 1).isSome = true) (hasValue : (type.field 2).isSome = true)
    (short : s.data.length ≤ size) (state : Decode.MapState) :
    Meets (Raised deep) (fun _ => True) (Decode.mapTurn conv db opts nested type s state) := by
  rw [Decode.mapTurn, readvarint32_eq, ok_bind]
  cases read : (readvarintSlow s).map fun found => (found.1.toUInt32, found.2) with
  | none => trivial
  | some found =>
      rcases found with ⟨tag, u⟩
      have shorter : u.data.length ≤ size := by
        have beyond := readvarint32_beyond ((readvarint32_eq s).trans (congrArg Except.ok read))
        exact beyond.shorter.le.trans short
      simp only
      split
      · cases key : type.field 1 with
        | none =>
            rw [key] at hasKey
            cases hasKey
        | some kf =>
            have leadsKey := leads kf (Ty.field_mem key).1
            exact (field_meets regular inside leadsKey shorter tag).bind fun _ _ => trivial
      · split
        · cases value : type.field 2 with
          | none =>
              rw [value] at hasValue
              cases hasValue
          | some vf =>
              have leadsValue := leads vf (Ty.field_mem value).1
              exact (field_meets regular inside leadsValue shorter tag).bind fun _ _ => trivial
        · trivial

theorem packedTurn_meets (regular : db.Regular) (inside : NestedMeets db deep good nested size)
    (leads : Leads db good f) (short : s.data.length ≤ size) (state : List Entry × Nat) :
    Meets (Raised deep) (fun _ => True) (Decode.packedTurn conv db opts nested f s state) := by
  unfold Decode.packedTurn
  split
  · trivial
  · exact (rawfield_meets regular inside leads short).bind fun _ _ => trivial

end Reading

section Turns

variable {conv : Conversions} {db : Database} {opts : Options} {deep : Prop}
  {nested : Ty → Slice → List Entry → Except Failure (List Entry)} {t : Ty} {f : Field}
  {s : Slice} {size : Nat} {entries : List Entry}

theorem rawsetKey_meets (inner : List Entry) (key value : LuaValue) :
    Meets (Raised deep) (fun _ => True) (rawsetKey inner key value) := by
  unfold rawsetKey
  cases rawset inner key value with
  | ok stored => trivial
  | error message => exact Raised.luaError _

theorem map_meets (regular : db.Regular) (regularType : t.Regular db)
    (inside : NestedMeets db deep (t.Has db) nested size) (member : f ∈ t.fields) {type : Ty}
    (points : db.typeOf f = some type) (isMap : type.isMap = true) (lists : Lists t entries)
    (short : s.data.length ≤ size) :
    Meets (Raised deep) (fun found => Lists t found.1)
      (Decode.map conv db opts nested f type entries s) := by
  rcases regularType.maps f member type points isMap with ⟨many, hasKey, hasValue⟩
  rcases lists.fetchtable member many with ⟨inner, fetched⟩
  rw [Decode.map, fetched, ok_bind]
  refine (lpbReadbytes_meets s).bind fun found shorter => ?_
  have leads : ∀ part ∈ type.fields, Leads db (t.Has db) part :=
    fun part among message inner pointsInner =>
      .map member points isMap among message pointsInner
  have turn : ∀ part state, Decode.sliceSize part ≤ Decode.sliceSize found.1 →
      Meets (Raised deep) (fun _ => True) (Decode.mapTurn conv db opts nested type part state) :=
    fun part state smaller => mapTurn_meets regular inside leads hasKey hasValue
      (smaller.trans (shorter.le.trans short)) state
  refine (consume_allowed (Decode.mapTurn_eats _ _ _ _ _) turn _).bind fun parts _ => ?_
  have assigned (key value : Option LuaValue) :
      Meets (Raised deep) (fun _ => True) (Decode.assign inner key value) := by
    unfold Decode.assign
    split
    · exact rawsetKey_meets inner _ _
    · trivial
  refine (assigned _ _).bind fun later _ => ?_
  have kept : Lists t (setSlot entries (.string f.name) (newTable conv later)) :=
    lists.setSlot regularType member fun _ => rfl
  exact kept

theorem repeated_meets (regular : db.Regular) (regularType : t.Regular db)
    (inside : NestedMeets db deep (t.Has db) nested size) (member : f ∈ t.fields)
    (leads : Leads db (t.Has db) f) (many : f.repeated = true) (lists : Lists t entries) (short : s.data.length ≤ size) (tag : UInt32) :
    Meets (Raised deep) (fun found => Lists t found.1)
      (Decode.repeated conv db opts nested f entries tag s) := by
  have stored (inner : List Entry) :
      Lists t (setSlot entries (.string f.name) (newTable conv inner)) :=
    lists.setSlot regularType member fun _ => rfl
  rcases lists.fetchtable member many with ⟨inner, fetched⟩
  rw [Decode.repeated, fetched, ok_bind]
  split
  · exact (field_meets regular inside leads short tag).bind fun found _ => stored _
  · refine (lpbReadbytes_meets s).bind fun found shorter => ?_
    have turn : ∀ part state, Decode.sliceSize part ≤ Decode.sliceSize found.1 →
        Meets (Raised deep) (fun _ => True) (Decode.packedTurn conv db opts nested f part state) :=
      fun part state smaller => packedTurn_meets regular inside leads
        (smaller.trans (shorter.le.trans short)) state
    exact (consume_allowed (Decode.packedTurn_eats _ _ _ _ _) turn _).bind fun found _ => stored _

theorem turn_meets (regular : db.Regular) (regularType : t.Regular db)
    (inside : NestedMeets db deep (t.Has db) nested size) (short : s.data.length ≤ size + 1)
    (lists : Lists t entries) :
    Meets (Raised deep) (fun item => item.elim (Lists t entries) fun found => Lists t found.1)
      (Decode.turn conv db opts nested t s entries) := by
  rw [Decode.turn, readvarint32_eq, ok_bind]
  cases read : (readvarintSlow s).map fun found => (found.1.toUInt32, found.2) with
  | none => exact lists
  | some found =>
      rcases found with ⟨tag, u⟩
      have beyond := readvarint32_beyond ((readvarint32_eq s).trans (congrArg Except.ok read))
      have shorter : u.data.length ≤ size := Nat.le_of_lt_succ (beyond.shorter.trans_le short)
      simp only
      cases named : t.field (gettag tag).toInt32 with
      | none =>
          rcases (skip_ends u.data.length).1 _ u tag le_rfl le_rfl with ⟨after, skipped⟩
          simp only [skipped]
          exact lists
      | some f =>
          have member := (Ty.field_mem named).1
          simp only
          cases points : (db.typeOf f).filter (·.isMap) with
          | some type =>
              rcases Option.filter_eq_some_iff.mp points with ⟨points, isMap⟩
              exact (map_meets regular regularType inside member points isMap lists
                shorter).bind fun found kept => kept
          | none =>
              have plain : ∀ type, db.typeOf f = some type → type.isMap = false := by
                simpa using points
              have leads : Leads db (t.Has db) f := fun message type pointsType =>
                .field member message pointsType (plain type pointsType)
              simp only
              split
              case isTrue many =>
                  exact (repeated_meets regular regularType inside member leads many lists shorter
                    tag).bind fun found kept => kept
              case isFalse once =>
                  exact (field_meets regular inside leads shorter tag).bind fun found _ =>
                    lists.setSlot regularType member fun many => absurd many once

theorem message_meets (regular : db.Regular) (regularType : t.Regular db)
    (inside : NestedMeets db deep (t.Has db) nested size) (short : s.data.length ≤ size + 1)
    (lists : Lists t entries) :
    Meets (Raised deep) (Lists t) (Decode.message conv db opts nested t s entries) :=
  consume_meets (Decode.turn_eats _ _ _ _ _) (fun _ _ smaller kept =>
    turn_meets regular regularType inside (smaller.trans short) kept) lists

end Turns

variable {conv : Conversions} {db : Database} {t : Ty}

theorem decode_meets (opts : Options) (regular : db.Regular) {deep : Prop} {depth : Nat} {s : Slice}
    {entries : List Entry} (regularType : t.Regular db) (lists : Lists t entries)
    (enough : deep ∨ s.data.length < 2 * depth ∨ t.Within db depth) :
    Meets (Raised deep) (Lists t) (decode conv db opts depth t s entries) := by
  induction depth generalizing t s entries with
  | zero =>
      rcases enough with deep | short | within
      · exact Raised.stack deep
      · omega
      · exact within.elim
  | succ depth inductionHypothesis =>
      -- a message inside is behind a tag and a length
      have inside : NestedMeets db deep (t.Has db) (decode conv db opts depth)
          (s.data.length - 1) := by
        intro type u entries has shorter regularInner lists
        apply inductionHypothesis regularInner lists
        rcases enough with deep | short | within
        · exact .inl deep
        · exact .inr (.inl (by omega))
        · exact .inr (.inr (within type has))
      exact message_meets regular regularType inside (by omega) lists

/-- Any bytes at all are decoded to a table or raise a Lua error, unless both the bytes and the
type have room for messages that are deeper in each other than the Lua stack allows. -/
theorem decodeMessage_meets (conv : Conversions) (opts : Options) (regular : db.Regular)
    (regularType : t.Regular db) (slots : Nat) (isHaveCmd : Bool) (data : Bytes)
    {start : Option (List Entry)} (lists : ∀ entries, start = some entries → Lists t entries) :
    Meets (Raised (2 * levels slots ≤ data.length ∧ ¬ t.Within db (levels slots))) (Lists t)
      (decodeMessage conv db opts slots t isHaveCmd data start) := by
  have begins : Lists t (start.getD (pushtypetable conv db opts t)) := by
    cases start with
    | none => exact pushtypetable_lists regularType conv opts
    | some entries => exact lists entries rfl
  unfold decodeMessage
  refine decode_meets opts regular regularType begins ?_
  by_cases within : t.Within db (levels slots)
  · exact .inr (.inr within)
  by_cases short : data.length < 2 * levels slots
  · refine .inr (.inl (lt_of_le_of_lt ?_ short))
    cases isHaveCmd with
    | false => exact le_rfl
    | true =>
        simp only [if_true]
        cases read : readfixed32 ⟨0, data⟩ with
        | none => exact le_rfl
        | some found => exact (readfixed32_beyond (n := found.1) read).shorter.le
  · exact .inl ⟨Nat.le_of_not_lt short, within⟩

namespace Sample

theorem person_regular : person.Regular database :=
  ⟨by decide +kernel, by decide +kernel, by decide +kernel⟩

theorem attrsEntry_regular : attrsEntry.Regular database :=
  ⟨by decide +kernel, by decide +kernel, by decide +kernel⟩

theorem mood_regular : mood.Regular database :=
  ⟨by decide +kernel, by decide +kernel, by decide +kernel⟩

theorem database_regular : database.Regular
  | 0 => person_regular
  | 1 => attrsEntry_regular
  | _ + 2 => mood_regular

end Sample

/-- A boss of a boss of a boss whose length is wrong. -/
theorem decodeMessage_meets_boss :
    Meets (Raised (2 * levels 19 ≤ 6 ∧ ¬ Sample.person.Within Sample.database (levels 19)))
      (Lists Sample.person) (decodeMessage plainConversions Sample.database Sample.options 19
        Sample.person false [42, 4, 42, 2, 42, 9] none) :=
  decodeMessage_meets plainConversions Sample.options Sample.database_regular
    Sample.person_regular 19 false [42, 4, 42, 2, 42, 9] (by nofun)

-- One boss more than the stack has room for.
example : decodeMessage plainConversions Sample.database Sample.options 19 Sample.person false
    [42, 6, 42, 4, 42, 2, 42, 0] none = .error .stack := by rfl

end CrossOver.Lua.Pb
