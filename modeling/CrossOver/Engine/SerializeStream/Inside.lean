import CrossOver.Engine.SerializeStream.RoundTrip

/-!
# When a stream stays inside its buffer

A reading operator leaves the buffer in two ways: the one for `uint8` looks at
four bytes after asserting one, and a length that comes from the data can wrap
the `uint32` sum that is asserted.  In both cases the assertion passes.
`Kind.Careful` is the state in which neither happens.
-/

namespace CrossOver.Engine.SerializeStream

open CrossOver.Lib

variable {s s' : SerializeStream} {kind : Kind} {value : Value}

/-- Everything looked at so far is in the buffer, and so is the position. -/
structure Contained (s : SerializeStream) : Prop where
  accesses : ∀ access ∈ s.accesses, access.Inside s.size.toNat
  position : s.pos ≤ s.size

/-- A request that keeps the stream inside its buffer in state `s`: a `uint8` that passes
its assertion has three more bytes behind it, and no length wraps `pos_`. -/
def Kind.Careful : Kind → SerializeStream → Prop
  | .uint8, s => s.pos.toNat + 1 ≤ s.size.toNat → s.pos.toNat + 4 ≤ s.size.toNat
  | .string, s => s.pos.toNat + 4 ≤ s.size.toNat →
      s.pos.toNat + 4 + leValue (s.buffer.read s.pos.toNat 4) < 2 ^ 32
  | .bytes len, s => s.pos.toNat + len.toNat < 2 ^ 32
  | _, _ => True

theorem ofBuffer_contained (data : Addresses) (dataLen : UInt32) :
    Contained (ofBuffer data dataLen) where
  accesses := by simp [ofBuffer]
  position := UInt32.le_iff_toNat_le.mpr (Nat.zero_le _)

theorem Contained.passed_iff (contained : Contained s) {looked : Nat} {len : UInt32} :
    Contained (s.passed looked len) ↔
      (looked = 0 ∨ s.pos.toNat + looked ≤ s.size.toNat) ∧ s.pos + len ≤ s.size := by
  constructor
  · intro passed
    exact ⟨Access.inside_iff.mp (passed.accesses _ (List.mem_append_right _ List.mem_cons_self)),
      passed.position⟩
  · rintro ⟨inside, position⟩
    refine ⟨?_, position⟩
    intro access membership
    obtain old | new := List.mem_append.mp membership
    · exact contained.accesses access old
    · cases List.mem_singleton.mp new
      exact Access.inside_iff.mpr inside

theorem map_ran {First Second : Type} {operation : Operation First} {f : First → Second}
    {second : Second} (ran : (f <$> operation) s = .ok (second, s')) :
    ∃ first, operation s = .ok (first, s') := by
  obtain ⟨⟨first, middle⟩, before, after⟩ := bind_eq_ok.mp ran
  cases after
  exact ⟨first, before⟩

theorem bind_ran {First Second : Type} {operation : Operation First} {f : First → Second}
    {second : Second} (ran : (operation >>= fun first => pure (f first)) s = .ok (second, s')) :
    ∃ first, operation s = .ok (first, s') := by
  obtain ⟨⟨first, middle⟩, before, after⟩ := bind_eq_ok.mp ran
  cases after
  exact ⟨first, before⟩

/-- A scalar looks at exactly the bytes that it asserted. -/
theorem readScalar_contained {width number : Nat} (contained : Contained s)
    (ran : readScalar width s = .ok (number, s')) : Contained s' := by
  rw [readScalar_eq] at ran
  split at ran
  · next fits =>
      cases ran
      refine contained.passed_iff.mpr ⟨.inr fits, ?_⟩
      rw [UInt32.le_iff_toNat_le, toNat_pos_add fits]
      exact fits
  · cases ran

theorem readUint8_contained_iff {v : UInt8} (contained : Contained s)
    (ran : readUint8 s = .ok (v, s')) : Contained s' ↔ Kind.uint8.Careful s := by
  rw [readUint8_eq] at ran
  split at ran
  · next fits =>
      cases ran
      have advanced : s.pos + 1 ≤ s.size := by
        rw [UInt32.le_iff_toNat_le]
        exact (toNat_pos_add fits).trans_le fits
      rw [contained.passed_iff, Kind.Careful]
      constructor
      · rintro ⟨inside, -⟩ -
        omega
      · intro careful
        exact ⟨.inr (careful fits), advanced⟩
  · cases ran

/-- The sum in the assertion, when it passes: it either did not wrap and is in the buffer, or
it wrapped. -/
theorem room_iff {len : UInt32} (room : s.pos + len ≤ s.size) :
    s.pos.toNat + len.toNat < 2 ^ 32 ↔ s.pos.toNat + len.toNat ≤ s.size.toNat := by
  have bound := s.size.toNat_lt
  rw [UInt32.le_iff_toNat_le, UInt32.toNat_add] at room
  constructor
  · intro small
    rwa [Nat.mod_eq_of_lt small] at room
  · intro fits
    omega

/-- A wrapped sum is below the position, so that the assertion passes. -/
theorem room_of_wrapped {len : UInt32} (position : s.pos ≤ s.size)
    (wraps : ¬ s.pos.toNat + len.toNat < 2 ^ 32) : s.pos + len ≤ s.size := by
  have bound := s.pos.toNat_lt
  have lenBound := len.toNat_lt
  rw [UInt32.le_iff_toNat_le] at position ⊢
  rw [UInt32.toNat_add]
  omega

theorem readByte_contained_iff {len : UInt32} {data : Bytes} (contained : Contained s)
    (ran : readByte len s = .ok (data, s')) :
    Contained s' ↔ s.pos.toNat + len.toNat < 2 ^ 32 := by
  rw [readByte_eq] at ran
  split at ran
  · next room =>
      cases ran
      have position := s.pos.toNat_lt
      rw [contained.passed_iff]
      constructor
      · rintro ⟨empty | fits, -⟩
        · omega
        · exact (room_iff room).mpr fits
      · intro small
        exact ⟨.inr ((room_iff room).mp small), room⟩
  · cases ran

theorem readByte_of_wrapped {len : UInt32} (position : s.pos ≤ s.size)
    (wraps : ¬ s.pos.toNat + len.toNat < 2 ^ 32) : ∃ data s', readByte len s = .ok (data, s') := by
  rw [readByte_eq, if_pos (room_of_wrapped position wraps)]
  exact ⟨_, _, rfl⟩

section Strings

variable (fits : s.pos.toNat + 4 ≤ s.size.toNat)
include fits

theorem lengthPassed_contained (contained : Contained s) : Contained (s.passed 4 4) := by
  refine contained.passed_iff.mpr ⟨.inr fits, ?_⟩
  rw [UInt32.le_iff_toNat_le]
  exact (toNat_pos_add fits).trans_le fits

theorem lengthPassed_careful_iff :
    (s.passed 4 4).pos.toNat +
        (UInt32.ofNat (leValue (s.buffer.read s.pos.toNat 4))).toNat < 2 ^ 32 ↔
      Kind.string.Careful s := by
  have behind : (s.passed 4 4).pos.toNat = s.pos.toNat + 4 := toNat_pos_add fits
  have word : leValue (s.buffer.read s.pos.toNat 4) < 2 ^ 32 :=
    leValue_lt_of_length Addresses.read_length
  rw [behind, UInt32.toNat_ofNat_of_lt' word, Kind.Careful]
  exact ⟨fun small _ => small, fun careful => careful fits⟩

end Strings

theorem readString_contained_iff {v : Bytes} (contained : Contained s)
    (ran : readString s = .ok (v, s')) : Contained s' ↔ Kind.string.Careful s := by
  rw [readString_eq] at ran
  split at ran
  · next fits =>
      rw [readByte_contained_iff (lengthPassed_contained fits contained) ran]
      exact lengthPassed_careful_iff fits
  · cases ran

/-- One request: the stream stays inside exactly when the request is careful. -/
theorem Kind.read_contained_iff (contained : Contained s)
    (ran : kind.read s = .ok (value, s')) : Contained s' ↔ kind.Careful s := by
  cases kind with
  | uint8 =>
      obtain ⟨v, ran⟩ := map_ran ran
      exact readUint8_contained_iff contained ran
  | string =>
      obtain ⟨v, ran⟩ := map_ran ran
      exact readString_contained_iff contained ran
  | bytes len =>
      obtain ⟨v, ran⟩ := map_ran ran
      exact readByte_contained_iff contained ran
  | _ =>
      obtain ⟨v, ran⟩ := map_ran ran
      obtain ⟨number, ran⟩ := bind_ran ran
      exact iff_of_true (readScalar_contained contained ran) trivial

/-- A careless request passes its assertions. -/
theorem Kind.read_of_careless (contained : Contained s) (careless : ¬ kind.Careful s) :
    ∃ value s', kind.read s = .ok (value, s') := by
  cases kind with
  | uint8 =>
      have fits : s.pos.toNat + 1 ≤ s.size.toNat := by
        by_contra short
        exact careless fun fits => absurd fits short
      have ran := readUint8_eq s
      rw [if_pos fits] at ran
      exact ⟨_, _, map_of_ran ran⟩
  | string =>
      have fits : s.pos.toNat + 4 ≤ s.size.toNat := by
        by_contra short
        exact careless fun fits => absurd fits short
      obtain ⟨data, s', ran⟩ := readByte_of_wrapped (lengthPassed_contained fits contained).position
        (mt (lengthPassed_careful_iff fits).mp careless)
      have whole := readString_eq s
      rw [if_pos fits, ran] at whole
      exact ⟨_, _, map_of_ran whole⟩
  | bytes len =>
      obtain ⟨data, s', ran⟩ := readByte_of_wrapped contained.position careless
      exact ⟨_, _, map_of_ran ran⟩
  | _ => exact absurd trivial careless

theorem readAll_snoc {front : List Kind} {values : List Value} {middle : SerializeStream}
    (first : readAll front s = .ok (values, middle))
    (last : kind.read middle = .ok (value, s')) :
    readAll (front ++ [kind]) s = .ok (values ++ [value], s') := by
  induction front generalizing s values with
  | nil =>
      cases first
      change (kind.read middle >>= fun r => _) = _
      rw [last]
      rfl
  | cons head rest inductionHypothesis =>
      obtain ⟨⟨v, s₁⟩, ranHead, ranRest⟩ := bind_eq_ok.mp first
      obtain ⟨⟨vs, s₂⟩, ranRest, ends⟩ := bind_eq_ok.mp ranRest
      cases ends
      change (head.read s >>= fun r => _) = _
      rw [ranHead]
      change (readAll (rest ++ [kind]) s₁ >>= fun r => _) = _
      rw [inductionHypothesis ranRest]
      rfl

theorem readAll_split {front : List Kind} {values : List Value}
    (ran : readAll (front ++ [kind]) s = .ok (values, s')) :
    ∃ first value middle, readAll front s = .ok (first, middle) ∧
      kind.read middle = .ok (value, s') := by
  induction front generalizing s values with
  | nil =>
      obtain ⟨⟨v, s₁⟩, ranHead, ends⟩ := bind_eq_ok.mp ran
      cases ends
      exact ⟨[], v, s, rfl, ranHead⟩
  | cons head rest inductionHypothesis =>
      obtain ⟨⟨v, s₁⟩, ranHead, ranRest⟩ := bind_eq_ok.mp ran
      obtain ⟨⟨vs, s₂⟩, ranRest, ends⟩ := bind_eq_ok.mp ranRest
      cases ends
      obtain ⟨first, value, middle, ranFront, last⟩ := inductionHypothesis ranRest
      refine ⟨v :: first, value, middle, ?_, last⟩
      change (head.read s >>= fun r => _) = _
      rw [ranHead]
      change (readAll rest s₁ >>= fun r => _) = _
      rw [ranFront]
      rfl

/-- A sequence of requests on a fresh stream looks at nothing outside the buffer, and never
leaves the position outside, exactly when every request that it gets to is careful. -/
theorem stream_contained_iff (buffer : Addresses) (size : UInt32) (kinds : List Kind) :
    (∀ front rest, kinds = front ++ rest → ∀ values s,
      readAll front (ofBuffer buffer size) = .ok (values, s) → Contained s) ↔
    ∀ front kind rest, kinds = front ++ kind :: rest → ∀ values s,
      readAll front (ofBuffer buffer size) = .ok (values, s) → kind.Careful s := by
  constructor
  · intro inside front kind rest split values s ran
    by_contra careless
    have contained := inside front (kind :: rest) split values s ran
    obtain ⟨value, s', step⟩ := kind.read_of_careless contained careless
    have after := inside (front ++ [kind]) rest (by simp [split]) _ s' (readAll_snoc ran step)
    exact careless ((kind.read_contained_iff contained step).mp after)
  · intro careful front
    induction front using List.reverseRecOn with
    | nil =>
        intro rest _ values s ran
        cases ran
        exact ofBuffer_contained buffer size
    | append_singleton front kind inductionHypothesis =>
        intro rest split values s ran
        obtain ⟨first, value, middle, ranFront, step⟩ := readAll_split ran
        have shape : kinds = front ++ kind :: rest := by simp [split]
        have contained := inductionHypothesis (kind :: rest) shape first middle ranFront
        exact (kind.read_contained_iff contained step).mpr
          (careful front kind rest shape first middle ranFront)

/-- One byte is asserted and four are looked at: the last byte of a buffer cannot be read as
a `uint8` without leaving the buffer. -/
theorem uint8_leaves_buffer : ¬ ∀ (buffer : Addresses) (size : UInt32) (kinds : List Kind)
    (values : List Value) (s : SerializeStream),
    readAll kinds (ofBuffer buffer size) = .ok (values, s) → Contained s := by
  intro always
  have contained := always (fun _ => 7) 1 [.uint8] _ _ rfl
  have inside := contained.accesses ⟨0, 4⟩ List.mem_cons_self 1 (by decide)
  exact absurd inside (by decide)

end CrossOver.Engine.SerializeStream
