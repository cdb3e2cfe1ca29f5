import CrossOver.Lua.Pb.Varint

/-!
# `lua_pb`: values on the wire

What `pb_skipvalue` takes for the value behind a tag.  A group ends at its own end tag;
whatever stands before it is skipped field by field, and where that fails the bytes of
the value are read again as the next tags.

`fuel` bounds the recursion of `pb_skipvalue` and `pb_readgroup`.
-/

namespace CrossOver.Lua.Pb

open CrossOver.Lib

/-- `pb_WireType`; a tag has room for two more. -/
inductive WireType where
  | varint
  | bit64
  | bytes
  | gstart
  | gend
  | bit32
  /-- `PB_TWIRECOUNT`, for a field type without a wire type -/
  | count
  | seven
  deriving DecidableEq, Repr

def WireType.number : WireType → UInt32
  | .varint => 0
  | .bit64 => 1
  | .bytes => 2
  | .gstart => 3
  | .gend => 4
  | .bit32 => 5
  | .count => 6
  | .seven => 7

def gettype (tag : UInt32) : WireType :=
  match (tag &&& 7).toNat with
  | 0 => .varint
  | 1 => .bit64
  | 2 => .bytes
  | 3 => .gstart
  | 4 => .gend
  | 5 => .bit32
  | 6 => .count
  | _ => .seven

def gettag (tag : UInt32) : UInt32 := tag >>> 3

def pair (tag : UInt32) (type : WireType) : UInt32 := tag <<< 3 ||| (type.number &&& 7)

/-- The value of the next `width` bytes. -/
def readfixed (width : Nat) (s : Slice) : Option (Nat × Slice) :=
  if s.data.length < width then none
  else some (leValue (s.data.take width), s.from (s.data.drop width))

def readfixed32 (s : Slice) : Option (UInt32 × Slice) :=
  (readfixed 4 s).map fun found => (UInt32.ofNat found.1, found.2)

def readfixed64 (s : Slice) : Option (UInt64 × Slice) :=
  (readfixed 8 s).map fun found => (UInt64.ofNat found.1, found.2)

/-- `pb_readslice`: the next `len` bytes as a slice of their own. -/
def readslice (s : Slice) (len : Nat) : Option (Slice × Slice) :=
  if s.data.length < len then none
  else some (⟨s.pos, s.data.take len⟩, s.from (s.data.drop len))

/-- `pb_skipvarint`, which does not count the bytes. -/
def skipvarint (s : Slice) : Option Slice :=
  match s.data.dropWhile fun b => b &&& 0x80 != 0 with
  | [] => none
  | _ :: rest => some (s.from rest)

def skipslice (s : Slice) (len : Nat) : Option Slice :=
  if s.data.length < len then none else some (s.from (s.data.drop len))

def skipbytes (s : Slice) : Except Failure (Option Slice) := do
  match ← readvarint64 s with
  | none => return none
  | some (len, t) => return skipslice t len.toNat

mutual

/-- `pb_skipvalue`; `none` leaves the position where it was. -/
def skipvalue : Nat → Slice → UInt32 → Except Failure (Option Slice)
  | 0, _, _ => .error .fuel
  | fuel + 1, s, tag =>
      match gettype tag with
      | .varint => .ok (skipvarint s)
      | .bit64 => .ok (skipslice s 8)
      | .bytes => skipbytes s
      | .bit32 => .ok (skipslice s 4)
      | .gstart => groupLoop fuel s tag
      | .gend => .ok none
      | .count => .ok none
      | .seven => .ok none

/-- The loop of `pb_readgroup`; what is behind the end tag. -/
def groupLoop : Nat → Slice → UInt32 → Except Failure (Option Slice)
  | 0, _, _ => .error .fuel
  | fuel + 1, s, tag => do
      match ← readvarint32 s with
      | none => return none
      | some (newtag, t) =>
          if gettype newtag = .gend then
            if gettag newtag ≠ gettag tag then return none else return some t
          else do
            let after ← skipvalue fuel t newtag
            groupLoop fuel (after.getD t) tag

end

/-- `t` is what is left of `s` behind at least one byte. -/
def Slice.Beyond (t s : Slice) : Prop :=
  ∃ front, front ≠ [] ∧ s.data = front ++ t.data ∧ t.pos = s.pos + front.length

namespace Slice

theorem Beyond.shorter {s t : Slice} (beyond : t.Beyond s) : t.data.length < s.data.length := by
  rcases beyond with ⟨front, nonempty, data, -⟩
  have positive := List.length_pos_of_ne_nil nonempty
  rw [data, List.length_append]
  omega

theorem Beyond.trans {s t u : Slice} (first : t.Beyond s) (second : u.Beyond t) : u.Beyond s := by
  rcases first with ⟨front, nonempty, data, pos⟩
  rcases second with ⟨middle, -, dataMiddle, posMiddle⟩
  refine ⟨front ++ middle, by simp [nonempty], ?_, ?_⟩
  · rw [data, dataMiddle, List.append_assoc]
  · rw [posMiddle, pos, List.length_append, Nat.add_assoc]

theorem from_beyond {s : Slice} {front rest : Bytes} (nonempty : front ≠ [])
    (data : s.data = front ++ rest) : (s.from rest).Beyond s := by
  refine ⟨front, nonempty, data, ?_⟩
  rw [Slice.from, data, List.length_append, Nat.add_sub_cancel]

end Slice

section Readers

variable {s t : Slice}

theorem readvarintSlow_beyond {n : UInt64} (found : readvarintSlow s = some (n, t)) :
    t.Beyond s := by
  rw [readvarintSlow_eq] at found
  rcases Option.map_eq_some_iff.mp found with ⟨⟨value, rest⟩, spelled, equal⟩
  cases equal
  rcases Varint.decode_append spelled with ⟨digits, data, nonempty, -⟩
  exact Slice.from_beyond nonempty data

theorem readvarint64_beyond {n : UInt64} (found : readvarint64 s = .ok (some (n, t))) :
    t.Beyond s :=
  readvarintSlow_beyond (Except.ok.inj ((readvarint64_eq s).symm.trans found))

theorem readvarint32_beyond {n : UInt32} (found : readvarint32 s = .ok (some (n, t))) :
    t.Beyond s := by
  rw [readvarint32_eq] at found
  rcases Option.map_eq_some_iff.mp (Except.ok.inj found) with ⟨⟨whole, rest⟩, slow, equal⟩
  cases equal
  exact readvarintSlow_beyond slow

theorem Slice.Beyond.drop {s t : Slice} (beyond : t.Beyond s) {len : Nat}
    (room : len ≤ t.data.length) : (t.from (t.data.drop len)).Beyond s := by
  rcases beyond with ⟨front, nonempty, data, pos⟩
  refine ⟨front ++ t.data.take len, by simp [nonempty], ?_, ?_⟩
  · rw [data, List.append_assoc, Slice.from, List.take_append_drop]
  · rw [List.length_append, List.length_take]
    simp only [Slice.from, pos, List.length_drop]
    omega

theorem skipslice_eq_some {len : Nat} :
    skipslice s len = some t ↔ len ≤ s.data.length ∧ t = s.from (s.data.drop len) := by
  unfold skipslice
  split
  case isTrue short => exact iff_of_false nofun fun found => absurd found.1 (by omega)
  case isFalse room =>
      rw [Option.some.injEq, eq_comm]
      exact (and_iff_right (by omega)).symm

theorem skipslice_beyond {len : Nat} (positive : 0 < len) (found : skipslice s len = some t) :
    t.Beyond s := by
  rcases skipslice_eq_some.mp found with ⟨room, rfl⟩
  apply Slice.from_beyond _ (List.take_append_drop len s.data).symm
  apply List.ne_nil_of_length_pos
  rw [List.length_take]
  omega

theorem skipvarint_beyond (found : skipvarint s = some t) : t.Beyond s := by
  have parts := List.takeWhile_append_dropWhile (p := fun b : UInt8 => b &&& 0x80 != 0) (l := s.data)
  unfold skipvarint at found
  split at found
  case h_1 => cases found
  case h_2 last rest ended =>
      cases found
      rw [ended, List.append_cons] at parts
      exact Slice.from_beyond (by simp) parts.symm

theorem skipbytes_eq (s : Slice) : skipbytes s =
    .ok ((readvarintSlow s).bind fun found => skipslice found.2 found.1.toNat) := by
  rw [skipbytes, readvarint64_eq]
  cases readvarintSlow s <;> rfl

theorem skipbytes_beyond (found : skipbytes s = .ok (some t)) : t.Beyond s := by
  rw [skipbytes_eq] at found
  rcases Option.bind_eq_some_iff.mp (Except.ok.inj found) with ⟨⟨len, u⟩, slow, skipped⟩
  rcases skipslice_eq_some.mp skipped with ⟨room, rfl⟩
  exact (readvarintSlow_beyond slow).drop room

end Readers

section Skipping

theorem groupLoop_succ (fuel : Nat) (s : Slice) (tag : UInt32) :
    groupLoop (fuel + 1) s tag =
      match (readvarintSlow s).map fun found => (found.1.toUInt32, found.2) with
      | none => .ok none
      | some (newtag, t) =>
          if gettype newtag = .gend then
            .ok (if gettag newtag ≠ gettag tag then none else some t)
          else skipvalue fuel t newtag >>= fun after => groupLoop fuel (after.getD t) tag := by
  rw [groupLoop, readvarint32_eq, ok_bind]
  cases (readvarintSlow s).map fun found => (found.1.toUInt32, found.2) with
  | none => rfl
  | some found =>
      by_cases ending : gettype found.1 = .gend
      · simp only [ending, if_true]
        split <;> rfl
      · simp only [ending, if_false]

theorem skip_beyond (fuel : Nat) : ∀ s t tag,
    (skipvalue fuel s tag = .ok (some t) → t.Beyond s) ∧
      (groupLoop fuel s tag = .ok (some t) → t.Beyond s) := by
  induction fuel with
  | zero => exact fun s t tag => ⟨nofun, nofun⟩
  | succ fuel inductionHypothesis =>
      intro s t tag
      constructor
      · intro skipped
        rw [skipvalue] at skipped
        split at skipped
        case h_1 => exact skipvarint_beyond (Except.ok.inj skipped)
        case h_2 => exact skipslice_beyond (by decide) (Except.ok.inj skipped)
        case h_3 => exact skipbytes_beyond skipped
        case h_4 => exact skipslice_beyond (by decide) (Except.ok.inj skipped)
        case h_5 => exact (inductionHypothesis s t tag).2 skipped
        case h_6 => cases skipped
        case h_7 => cases skipped
        case h_8 => cases skipped
      · intro looped
        rw [groupLoop_succ] at looped
        cases read : (readvarintSlow s).map fun found => (found.1.toUInt32, found.2) with
        | none =>
            rw [read] at looped
            cases looped
        | some found =>
            rcases found with ⟨newtag, u⟩
            have beyond : u.Beyond s := by
              apply readvarint32_beyond (n := newtag)
              rw [readvarint32_eq, read]
            rw [read] at looped
            by_cases ending : gettype newtag = .gend
            · simp only [if_pos ending] at looped
              split at looped
              · cases looped
              · cases looped
                exact beyond
            · simp only [if_neg ending] at looped
              rcases bind_eq_ok.mp looped with ⟨after, skipped, rest⟩
              have last := (inductionHypothesis (after.getD u) t tag).2 rest
              cases after with
              | none => exact beyond.trans last
              | some after =>
                  exact (beyond.trans ((inductionHypothesis u after newtag).1 skipped)).trans last

theorem skipvalue_shorter {fuel : Nat} {s : Slice} {tag : UInt32} {after : Option Slice}
    (skipped : skipvalue fuel s tag = .ok after) :
    (after.getD s).data.length ≤ s.data.length := by
  cases after with
  | none => exact le_refl _
  | some t => exact ((skip_beyond fuel s t tag).1 skipped).shorter.le

def Ends (calls : Nat → Slice → UInt32 → Except Failure (Option Slice)) (base size : Nat) : Prop :=
  ∀ fuel s tag, s.data.length ≤ size → 2 * size + base ≤ fuel →
    ∃ found, calls fuel s tag = .ok found

theorem groupLoop_ends {size : Nat}
    (smaller : ∀ less < size, Ends skipvalue 2 less ∧ Ends groupLoop 1 less) :
    Ends groupLoop 1 size := by
  intro fuel s tag short enough
  obtain ⟨fuel, rfl⟩ : ∃ left, fuel = left + 1 := ⟨fuel - 1, by omega⟩
  rw [groupLoop_succ]
  cases read : (readvarintSlow s).map fun found => (found.1.toUInt32, found.2) with
  | none => exact ⟨none, rfl⟩
  | some found =>
      rcases found with ⟨newtag, t⟩
      have beyond : t.Beyond s := by
        apply readvarint32_beyond (n := newtag)
        rw [readvarint32_eq, read]
      have shorter := beyond.shorter
      by_cases ending : gettype newtag = .gend
      · simp only [if_pos ending]
        exact ⟨_, rfl⟩
      · rcases smaller (size - 1) (by omega) with ⟨skips, loops⟩
        rcases skips fuel t newtag (by omega) (by omega) with ⟨after, skipped⟩
        have shorter' := skipvalue_shorter skipped
        simp only [if_neg ending, skipped, ok_bind]
        exact loops fuel (after.getD t) tag (by omega) (by omega)

theorem skipvalue_ends {size : Nat} (loops : Ends groupLoop 1 size) : Ends skipvalue 2 size := by
  intro fuel s tag short enough
  obtain ⟨fuel, rfl⟩ : ∃ left, fuel = left + 1 := ⟨fuel - 1, by omega⟩
  rw [skipvalue]
  split
  case h_3 => exact ⟨_, skipbytes_eq s⟩
  case h_5 => exact loops fuel s tag short (by omega)
  all_goals exact ⟨_, rfl⟩

theorem skip_ends (size : Nat) : Ends skipvalue 2 size ∧ Ends groupLoop 1 size := by
  induction size using Nat.strongRecOn with
  | _ size inductionHypothesis =>
      have loops := groupLoop_ends inductionHypothesis
      exact ⟨skipvalue_ends loops, loops⟩

end Skipping

section WellFormed

/-- `digits` is a spelling of `value`, whatever follows. -/
def Spells (digits : Bytes) (value : UInt64) : Prop :=
  ∀ pos rest, readvarintSlow ⟨pos, digits ++ rest⟩ = some (value, ⟨pos + digits.length, rest⟩)

theorem Spells.read {digits : Bytes} {value : UInt64} (spelled : Spells digits value) (pos : Nat)
    (rest : Bytes) :
    readvarintSlow ⟨pos, digits ++ rest⟩ = some (value, ⟨pos + digits.length, rest⟩) :=
  spelled pos rest

theorem spells_nonempty {digits : Bytes} {value : UInt64} (spelled : Spells digits value) :
    digits ≠ [] := by
  rintro rfl
  have beyond := readvarintSlow_beyond (spelled 0 [])
  exact absurd beyond.shorter (lt_irrefl 0)

mutual

inductive WellFormed : UInt32 → Bytes → Prop where
  | varint {tag : UInt32} {digits : Bytes} {last : UInt8} : gettype tag = .varint →
      (∀ b ∈ digits, ¬ b.toNat < 128) → last.toNat < 128 → WellFormed tag (digits ++ [last])
  | bit64 {tag : UInt32} {bytes : Bytes} : gettype tag = .bit64 → bytes.length = 8 →
      WellFormed tag bytes
  | bit32 {tag : UInt32} {bytes : Bytes} : gettype tag = .bit32 → bytes.length = 4 →
      WellFormed tag bytes
  | bytes {tag : UInt32} {digits payload : Bytes} {len : UInt64} : gettype tag = .bytes →
      Spells digits len → payload.length = len.toNat → WellFormed tag (digits ++ payload)
  | group {tag : UInt32} {body : Bytes} : gettype tag = .gstart → GroupBody tag body →
      WellFormed tag body

/-- Fields up to the end tag. -/
inductive GroupBody : UInt32 → Bytes → Prop where
  | ending {tag : UInt32} {digits : Bytes} {value : UInt64} : Spells digits value →
      gettype value.toUInt32 = .gend → gettag value.toUInt32 = gettag tag →
      GroupBody tag digits
  | field {tag : UInt32} {digits bytes body : Bytes} {value : UInt64} : Spells digits value →
      gettype value.toUInt32 ≠ .gend → WellFormed value.toUInt32 bytes →
      GroupBody tag body → GroupBody tag (digits ++ bytes ++ body)

end

theorem skipvarint_eq {digits : Bytes} {last : UInt8} (more : ∀ b ∈ digits, ¬ b.toNat < 128)
    (ends : last.toNat < 128) (pos : Nat) (rest : Bytes) :
    skipvarint ⟨pos, digits ++ [last] ++ rest⟩ = some ⟨pos + (digits.length + 1), rest⟩ := by
  have dropped : (digits ++ [last] ++ rest).dropWhile (fun b => b &&& 0x80 != 0) =
      last :: rest := by
    have continues : ∀ b ∈ digits, (b &&& 0x80 != 0) = true := fun b membership => by
      simpa using fun zero => more b membership ((high_bit b).mp zero)
    have stops : (last &&& 0x80 != 0) = false := by simpa using (high_bit last).mpr ends
    rw [List.append_assoc, List.dropWhile_append_of_pos continues, List.singleton_append,
      List.dropWhile_cons_of_neg (by simp [stops])]
  have after := Slice.from_append pos (digits ++ [last]) rest
  rw [List.length_append, List.length_singleton] at after
  rw [skipvarint, dropped]
  exact congrArg some after

theorem skipslice_append (pos : Nat) (front rest : Bytes) :
    skipslice ⟨pos, front ++ rest⟩ front.length = some ⟨pos + front.length, rest⟩ := by
  rw [skipslice_eq_some]
  refine ⟨by simp, ?_⟩
  rw [List.drop_left, Slice.from_append]

mutual

theorem WellFormed.skipvalue {tag : UInt32} {bytes : Bytes} (formed : WellFormed tag bytes)
    (fuel pos : Nat) (rest : Bytes) (enough : 2 * bytes.length + 2 ≤ fuel) :
    skipvalue fuel ⟨pos, bytes ++ rest⟩ tag = .ok (some ⟨pos + bytes.length, rest⟩) := by
  obtain ⟨fuel, rfl⟩ : ∃ left, fuel = left + 1 := ⟨fuel - 1, by omega⟩
  rw [Pb.skipvalue]
  cases formed with
  | varint type more ends =>
      simp only [type, skipvarint_eq more ends, List.length_append, List.length_singleton]
  | bit64 type size => simp only [type, ← size, skipslice_append]
  | bit32 type size => simp only [type, ← size, skipslice_append]
  | bytes type spelled size =>
      simp only [type, skipbytes_eq, List.append_assoc, spelled.read, Option.bind_some, ← size,
        skipslice_append, List.length_append, Nat.add_assoc]
  | group type body =>
      simp only [type]
      exact body.groupLoop fuel pos rest (by omega)

theorem GroupBody.groupLoop {tag : UInt32} {body : Bytes} (formed : GroupBody tag body)
    (fuel pos : Nat) (rest : Bytes) (enough : 2 * body.length + 1 ≤ fuel) :
    groupLoop fuel ⟨pos, body ++ rest⟩ tag = .ok (some ⟨pos + body.length, rest⟩) := by
  obtain ⟨fuel, rfl⟩ : ∃ left, fuel = left + 1 := ⟨fuel - 1, by omega⟩
  rw [groupLoop_succ]
  cases formed with
  | ending spelled type same =>
      simp only [spelled.read, Option.map_some, type, same, ne_eq, not_true_eq_false, if_true,
        if_false]
  | field spelled type value body =>
      have positive := List.length_pos_of_ne_nil (spells_nonempty spelled)
      simp only [List.append_assoc, List.length_append] at enough ⊢
      simp only [spelled.read, Option.map_some, if_neg type]
      rw [value.skipvalue _ _ _ (by omega), ok_bind, Option.getD_some,
        body.groupLoop _ _ _ (by omega)]
      simp only [Nat.add_assoc]

end

end WellFormed

section Cost

mutual

/-- How often `pb_skipvalue` has a loop of `pb_readgroup` call `pb_readvarint32`. -/
def skipTurns : Nat → Slice → UInt32 → Nat
  | 0, _, _ => 0
  | fuel + 1, s, tag => if gettype tag = .gstart then groupTurns fuel s tag else 0

/-- How often the loop of `pb_readgroup` calls `pb_readvarint32`, whether there is a tag or not,
with the loops inside. -/
def groupTurns : Nat → Slice → UInt32 → Nat
  | 0, _, _ => 0
  | fuel + 1, s, tag =>
      match readvarint32 s with
      | .ok (some (newtag, t)) =>
          if gettype newtag = .gend then 1
          else
            match skipvalue fuel t newtag with
            | .ok after => 1 + skipTurns fuel t newtag + groupTurns fuel (after.getD t) tag
            | .error _ => 1 + skipTurns fuel t newtag
      | _ => 1

end

theorem groupTurns_le (fuel : Nat) : ∀ s tag,
    groupTurns fuel s tag + 1 ≤ 2 ^ (s.data.length + 1) ∧
      skipTurns fuel s tag + 1 ≤ 2 ^ (s.data.length + 1) := by
  induction fuel using Nat.strongRecOn with
  | _ fuel inductionHypothesis =>
      intro s tag
      have positive : 1 ≤ 2 ^ s.data.length := Nat.one_le_two_pow
      have power : 2 ^ (s.data.length + 1) = 2 * 2 ^ s.data.length := by
        rw [pow_succ, mul_comm]
      cases fuel with
      | zero =>
          rw [groupTurns, skipTurns]
          omega
      | succ fuel =>
          constructor
          · rw [groupTurns]
            split
            case h_1 newtag t read =>
                have beyond := readvarint32_beyond read
                have half : ∀ u : Slice, u.data.length ≤ t.data.length →
                    2 ^ (u.data.length + 1) ≤ 2 ^ s.data.length := fun u shorter =>
                  Nat.pow_le_pow_right (by decide) (le_trans (Nat.succ_le_succ shorter) beyond.shorter)
                split
                · omega
                · have inner := (inductionHypothesis fuel (Nat.lt_succ_self _) t newtag).2
                  have first := half t (le_refl _)
                  split
                  case h_1 after skipped =>
                      have rest := (inductionHypothesis fuel (Nat.lt_succ_self _) (after.getD t) tag).1
                      have second := half (after.getD t) (skipvalue_shorter skipped)
                      omega
                  case h_2 => omega
            case h_2 => omega
          · rw [skipTurns]
            split
            · exact (inductionHypothesis fuel (Nat.lt_succ_self _) s tag).1
            · omega

def openings (count : Nat) : Bytes := List.replicate count 0x0B

theorem readvarint32_openings (pos count : Nat) :
    readvarint32 ⟨pos, openings (count + 1)⟩ = .ok (some (0x0B, ⟨pos + 1, openings count⟩)) := by
  have rest : Slice.from ⟨pos, 0x0B :: openings count⟩ (openings count) =
      ⟨pos + 1, openings count⟩ := by
    simp [Slice.from]
  rw [← rest]
  rfl

theorem groupLoop_openings (fuel : Nat) : ∀ pos count tag, 2 * count + 1 ≤ fuel →
    groupLoop fuel ⟨pos, openings count⟩ tag = .ok none ∧
      groupTurns fuel ⟨pos, openings count⟩ tag + 1 = 2 ^ (count + 1) := by
  induction fuel using Nat.strongRecOn with
  | _ fuel inductionHypothesis =>
      intro pos count tag enough
      obtain ⟨fuel, rfl⟩ : ∃ left, fuel = left + 1 := ⟨fuel - 1, by omega⟩
      cases count with
      | zero => exact ⟨rfl, rfl⟩
      | succ count =>
          obtain ⟨inner, rfl⟩ : ∃ left, fuel = left + 1 := ⟨fuel - 1, by omega⟩
          rcases inductionHypothesis inner (by omega) (pos + 1) count 0x0B (by omega) with
            ⟨unclosed, turns⟩
          rcases inductionHypothesis (inner + 1) (by omega) (pos + 1) count tag (by omega) with
            ⟨unclosed', turns'⟩
          have opens : gettype 0x0B = .gstart := rfl
          have skipped : skipvalue (inner + 1) ⟨pos + 1, openings count⟩ 0x0B = .ok none := unclosed
          have skips : skipTurns (inner + 1) ⟨pos + 1, openings count⟩ 0x0B =
              groupTurns inner ⟨pos + 1, openings count⟩ 0x0B := rfl
          constructor
          · rw [groupLoop, readvarint32_openings, ok_bind]
            simp only [opens, skipped, ok_bind]
            exact unclosed'
          · rw [groupTurns, readvarint32_openings]
            simp only [opens, skipped, skips]
            rw [if_neg (by decide), pow_succ, Option.getD_none]
            omega

/-- The most calls that `n` bytes can lead to, and groups opened in each other do. -/
theorem groupTurns_greatest (n : Nat) :
    (∀ pos tag, groupTurns (2 * n + 1) ⟨pos, openings n⟩ tag = 2 ^ (n + 1) - 1) ∧
      IsGreatest {turns | ∃ s tag, s.data.length = n ∧ turns = groupTurns (2 * n + 1) s tag}
        (2 ^ (n + 1) - 1) := by
  have opened : ∀ pos tag, groupTurns (2 * n + 1) ⟨pos, openings n⟩ tag = 2 ^ (n + 1) - 1 := by
    intro pos tag
    rw [← (groupLoop_openings (2 * n + 1) pos n tag (le_refl _)).2]
    rfl
  refine ⟨opened, ⟨⟨0, openings n⟩, 0x0B, List.length_replicate, (opened 0 0x0B).symm⟩, ?_⟩
  rintro turns ⟨s, tag, rfl, rfl⟩
  have most := (groupTurns_le (2 * s.data.length + 1) s tag).1
  omega

end Cost

end CrossOver.Lua.Pb
