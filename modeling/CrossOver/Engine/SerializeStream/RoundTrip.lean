import CrossOver.Engine.SerializeStream

/-!
# A stream reads back what was written

`Value.encoding` is what an operator leaves in the buffer.  `Wrote` describes
every writing operator and `Passes` every reading one by that encoding alone, so
that the induction over a sequence never looks at a single type.
-/

namespace CrossOver.Engine.SerializeStream

open CrossOver.Lib

variable {s s' : SerializeStream} {data : Bytes} {value : Value}

def Value.encoding : Value → Bytes
  | .uint8 v => leBytes 1 v.toNat
  | .int8 v => leBytes 1 v.toUInt8.toNat
  | .uint16 v => leBytes 2 v.toNat
  | .int16 v => leBytes 2 v.toUInt16.toNat
  | .uint32 v => leBytes 4 v.toNat
  | .int32 v => leBytes 4 v.toUInt32.toNat
  | .uint64 v => leBytes 8 v.toNat
  | .int64 v => leBytes 8 v.toUInt64.toNat
  | .char v => leBytes 1 v.toUInt8.toNat
  | .bool v => leBytes 1 v.toNat
  | .float bits => leBytes 4 bits.toNat
  | .double bits => leBytes 8 bits.toNat
  | .string v => leBytes 4 v.length ++ v
  | .bytes data => data

def Value.encodedSize : Value → Nat
  | .uint8 _ | .int8 _ | .char _ | .bool _ => 1
  | .uint16 _ | .int16 _ => 2
  | .uint32 _ | .int32 _ | .float _ => 4
  | .uint64 _ | .int64 _ | .double _ => 8
  | .string v => 4 + v.length
  | .bytes data => data.length

theorem Value.encoding_length (value : Value) : value.encoding.length = value.encodedSize := by
  cases value <;> simp [encoding, encodedSize]

/-- With room for a block, `pos_` steps behind it without wrapping. -/
theorem toNat_pos_add {width : Nat} (fits : s.pos.toNat + width ≤ s.size.toNat) :
    (s.pos + UInt32.ofNat width).toNat = s.pos.toNat + width := by
  have bound := s.size.toNat_lt
  have small : width < UInt32.size := by
    rw [UInt32.size]
    omega
  rw [UInt32.toNat_add, UInt32.toNat_ofNat_of_lt' small, Nat.mod_eq_of_lt (by omega)]

section Writing

/-- A writing operator that left `data` behind `pos_`. -/
structure Wrote (s : SerializeStream) (data : Bytes) (s' : SerializeStream) : Prop where
  size : s'.size = s.size
  pos : s'.pos.toNat = s.pos.toNat + data.length
  fits : s'.pos ≤ s'.size
  buffer : s'.buffer = s.buffer.write s.pos.toNat data

theorem assertRoom_ok {width : Nat} (ran : assertRoom width s = .ok ((), s')) :
    s.pos.toNat + width ≤ s.size.toNat ∧ s = s' := by
  unfold assertRoom at ran
  split at ran
  · next fits =>
      cases ran
      exact ⟨fits, rfl⟩
  · cases ran

theorem store_advance (s : SerializeStream) (data : Bytes)
    (fits : s.pos.toNat + data.length ≤ s.size.toNat) : Wrote s data { s with
      buffer := s.buffer.write s.pos.toNat data
      pos := s.pos + UInt32.ofNat data.length } where
  size := rfl
  pos := toNat_pos_add fits
  fits := UInt32.le_iff_toNat_le.mpr ((toNat_pos_add fits).trans_le fits)
  buffer := rfl

theorem writeScalar_wrote {width number : Nat}
    (ran : writeScalar width number s = .ok ((), s')) :
    Wrote s (leBytes width number) s' := by
  obtain ⟨⟨⟨⟩, asserted⟩, assertion, stored⟩ := bind_eq_ok.mp ran
  obtain ⟨fits, rfl⟩ := assertRoom_ok assertion
  cases stored
  have wrote := store_advance s (leBytes width number) (by rwa [leBytes_length])
  rwa [leBytes_length] at wrote

theorem writeString_wrote {v : Bytes} (ran : writeString v s = .ok ((), s')) :
    Wrote s (leBytes 4 v.length ++ v) s' := by
  obtain ⟨⟨⟨⟩, asserted⟩, assertion, stored⟩ := bind_eq_ok.mp ran
  obtain ⟨fits, rfl⟩ := assertRoom_ok assertion
  cases stored
  have length : (leBytes 4 v.length ++ v).length = 4 + v.length := by simp
  have bound := s.size.toNat_lt
  have behindLength : (s.pos + UInt32.ofNat 4).toNat = s.pos.toNat + 4 :=
    toNat_pos_add (by omega)
  have behind : s.pos + UInt32.ofNat 4 + UInt32.ofNat v.length =
      s.pos + UInt32.ofNat (4 + v.length) := by
    rw [UInt32.ofNat_add, UInt32.add_assoc]
  have twice : (s.buffer.write s.pos.toNat (leBytes 4 v.length)).write
      (s.pos + UInt32.ofNat 4).toNat v =
      s.buffer.write s.pos.toNat (leBytes 4 v.length ++ v) := by
    have touching := s.buffer.write_write s.pos.toNat (leBytes 4 v.length) v
    rwa [leBytes_length, ← behindLength] at touching
  have wrote := store_advance s (leBytes 4 v.length ++ v) (by rwa [length])
  rw [length, ← behind, ← twice] at wrote
  exact wrote

theorem writeByte_wrote (ran : writeByte data s = .ok ((), s')) : Wrote s data s' := by
  obtain ⟨⟨⟨⟩, asserted⟩, assertion, stored⟩ := bind_eq_ok.mp ran
  obtain ⟨fits, rfl⟩ := assertRoom_ok assertion
  cases stored
  exact store_advance s data (by omega)

theorem Value.write_wrote (ran : value.write s = .ok ((), s')) : Wrote s value.encoding s' := by
  cases value with
  | string v => exact writeString_wrote ran
  | bytes data => exact writeByte_wrote ran
  | _ => exact writeScalar_wrote ran

end Writing

section Reading

/-- The stream stands in front of `data`. -/
structure Before (data : Bytes) (s : SerializeStream) : Prop where
  fits : s.pos.toNat + data.length ≤ s.size.toNat
  content : s.buffer.read s.pos.toNat data.length = data

/-- A reading operator that went over `width` bytes. -/
structure Passes (s : SerializeStream) (width : Nat) (s' : SerializeStream) : Prop where
  size : s'.size = s.size
  buffer : s'.buffer = s.buffer
  pos : s'.pos.toNat = s.pos.toNat + width

theorem passed_passes (looked : Nat) {width : Nat} (fits : s.pos.toNat + width ≤ s.size.toNat) :
    Passes s width (s.passed looked (UInt32.ofNat width)) where
  size := rfl
  buffer := rfl
  pos := toNat_pos_add fits

theorem readScalar_passes (before : Before data s) :
    ∃ s', readScalar data.length s = .ok (leValue data, s') ∧ Passes s data.length s' := by
  refine ⟨_, ?_, passed_passes data.length before.fits⟩
  rw [readScalar_eq, if_pos before.fits, before.content]

theorem readScalar_restores {width number : Nat} (before : Before (leBytes width number) s)
    (small : number < 256 ^ width) :
    ∃ s', readScalar width s = .ok (number, s') ∧ Passes s width s' := by
  obtain ⟨s', ran, passes⟩ := readScalar_passes before
  rw [leBytes_length] at ran passes
  rw [leValue_leBytes small] at ran
  exact ⟨s', ran, passes⟩

/-- The three bytes behind the asserted one do not reach the value. -/
theorem readUint8_restores {v : UInt8} (before : Before (leBytes 1 v.toNat) s) :
    ∃ s', readUint8 s = .ok (v, s') ∧ Passes s 1 s' := by
  have fits := before.fits
  rw [leBytes_length] at fits
  have first : s.buffer s.pos.toNat = v := by
    have content := before.content
    rw [leBytes_length, Addresses.read_succ] at content
    simpa [leBytes] using List.head_eq_of_cons_eq content
  refine ⟨_, ?_, passed_passes 4 fits⟩
  rw [readUint8_eq, if_pos fits, Addresses.read_succ, leValue, first]
  simp

theorem readByte_restores (before : Before data s) :
    ∃ s', readByte (UInt32.ofNat data.length) s = .ok (data, s') ∧ Passes s data.length s' := by
  have bound := s.size.toNat_lt
  have fits := before.fits
  have small : (UInt32.ofNat data.length).toNat = data.length := by
    apply UInt32.toNat_ofNat_of_lt'
    rw [UInt32.size]
    omega
  have room : s.pos + UInt32.ofNat data.length ≤ s.size := by
    rw [UInt32.le_iff_toNat_le, toNat_pos_add fits]
    exact fits
  refine ⟨_, ?_, passed_passes data.length fits⟩
  rw [readByte_eq, if_pos room, small, before.content]

theorem readString_restores {v : Bytes} (before : Before (leBytes 4 v.length ++ v) s) :
    ∃ s', readString s = .ok (v, s') ∧ Passes s (4 + v.length) s' := by
  have bound := s.size.toNat_lt
  have fits := before.fits
  have content := before.content
  rw [List.length_append, leBytes_length] at fits content
  rw [Addresses.read_add] at content
  obtain ⟨head, body⟩ := List.append_inj content (by simp)
  have passesLength : Passes s 4 (s.passed 4 4) := passed_passes 4 (by omega)
  have beforeBody : Before v (s.passed 4 4) :=
    ⟨by rw [passesLength.pos, passesLength.size]; omega,
      by rw [passesLength.buffer, passesLength.pos]; exact body⟩
  obtain ⟨s', ranBody, passesBody⟩ := readByte_restores beforeBody
  refine ⟨s', ?_, passesBody.size.trans passesLength.size,
    passesBody.buffer.trans passesLength.buffer, ?_⟩
  · rw [readString_eq, if_pos (by omega), head, leValue_leBytes (by omega)]
    exact ranBody
  · rw [passesBody.pos, passesLength.pos]
    omega

theorem scalar_restores {Result : Type} {f : Nat → Result} {result : Result}
    {width number : Nat} (before : Before (leBytes width number) s)
    (small : number < 256 ^ width) (same : f number = result) :
    ∃ s', (readScalar width >>= fun read => pure (f read)) s = .ok (result, s') ∧
      Passes s width s' := by
  obtain ⟨s', ran, passes⟩ := readScalar_restores before small
  refine ⟨s', ?_, passes⟩
  change (readScalar width s >>= fun r => _) = _
  rw [ran, ← same]
  rfl

theorem map_restores {First Second : Type} {operation : Operation First} {f : First → Second}
    {first : First} {width : Nat}
    (restores : ∃ s', operation s = .ok (first, s') ∧ Passes s width s') :
    ∃ s', (f <$> operation) s = .ok (f first, s') ∧ Passes s width s' := by
  obtain ⟨s', ran, passes⟩ := restores
  refine ⟨s', ?_, passes⟩
  change (operation s >>= fun r => _) = _
  rw [ran]
  rfl

/-- Every operator reads back what its counterpart left, whatever the stream holds elsewhere. -/
theorem Value.read_restores (before : Before value.encoding s) :
    ∃ s', value.kind.read s = .ok (value, s') ∧ Passes s value.encodedSize s' := by
  cases value with
  | uint8 v => exact map_restores (readUint8_restores before)
  | int8 v => exact map_restores (scalar_restores before v.toUInt8.toNat_lt (by simp))
  | uint16 v => exact map_restores (scalar_restores before v.toNat_lt (by simp))
  | int16 v => exact map_restores (scalar_restores before v.toUInt16.toNat_lt (by simp))
  | uint32 v => exact map_restores (scalar_restores before v.toNat_lt (by simp))
  | int32 v => exact map_restores (scalar_restores before v.toUInt32.toNat_lt (by simp))
  | uint64 v => exact map_restores (scalar_restores before v.toNat_lt (by simp))
  | int64 v => exact map_restores (scalar_restores before v.toUInt64.toNat_lt (by simp))
  | char v => exact map_restores (scalar_restores before v.toUInt8.toNat_lt (by simp))
  | bool v => exact map_restores (scalar_restores before (by cases v <;> decide)
      (by cases v <;> rfl))
  | float bits => exact map_restores (scalar_restores before bits.toNat_lt (by simp))
  | double bits => exact map_restores (scalar_restores before bits.toNat_lt (by simp))
  | string v => exact map_restores (readString_restores before)
  | bytes data => exact map_restores (readByte_restores before)

end Reading

section Sequences

variable {values : List Value}

theorem writeAll_frame (written : writeAll values s = .ok ((), s')) :
    s'.size = s.size ∧ s.pos.toNat ≤ s'.pos.toNat ∧
      ∀ address < s.pos.toNat, s'.buffer address = s.buffer address := by
  induction values generalizing s with
  | nil =>
      cases written
      exact ⟨rfl, le_rfl, fun _ _ => rfl⟩
  | cons value rest inductionHypothesis =>
      obtain ⟨⟨⟨⟩, s₁⟩, first, later⟩ := bind_eq_ok.mp written
      have wrote := value.write_wrote first
      obtain ⟨size, pos, kept⟩ := inductionHypothesis later
      have ahead := wrote.pos
      refine ⟨size.trans wrote.size, by omega, ?_⟩
      intro address before
      rw [kept address (by omega), wrote.buffer, Addresses.write_below before]

/-- A reader that stands where the writer stood reads the values back and ends where the
writer ended, whatever is in the memory outside the buffer. -/
theorem readAll_restores (written : writeAll values s = .ok ((), s')) {r : SerializeStream}
    (samePos : r.pos = s.pos) (sameSize : r.size = s.size)
    (same : ∀ address < s.size.toNat, r.buffer address = s'.buffer address) :
    ∃ r', readAll (values.map Value.kind) r = .ok (values, r') ∧ r'.pos = s'.pos ∧
      s'.pos.toNat = s.pos.toNat + (values.map Value.encodedSize).sum := by
  induction values generalizing s r with
  | nil =>
      cases written
      exact ⟨r, rfl, samePos, by simp⟩
  | cons value rest inductionHypothesis =>
      obtain ⟨⟨⟨⟩, s₁⟩, first, later⟩ := bind_eq_ok.mp written
      have wrote := value.write_wrote first
      obtain ⟨-, -, kept⟩ := writeAll_frame later
      have fits : s₁.pos.toNat ≤ s.size.toNat := by
        rw [← wrote.size]
        exact UInt32.le_iff_toNat_le.mp wrote.fits
      have pos := wrote.pos
      have before : Before value.encoding r := by
        refine ⟨by rw [samePos, sameSize]; omega, ?_⟩
        have content : s₁.buffer.read s.pos.toNat value.encoding.length = value.encoding := by
          rw [wrote.buffer, Addresses.read_write]
        rw [samePos]
        refine (Addresses.read_congr ?_).trans content
        intro address _ inside
        rw [same address (by omega), kept address (by omega)]
      obtain ⟨r₁, ranFirst, passes⟩ := value.read_restores before
      have position : r₁.pos = s₁.pos := by
        apply UInt32.toNat_inj.mp
        rw [passes.pos, samePos, pos, value.encoding_length]
      obtain ⟨r', ranRest, ends, length⟩ := inductionHypothesis later position
        (passes.size.trans (sameSize.trans wrote.size.symm))
        (by rw [passes.buffer, wrote.size]; exact same)
      refine ⟨r', ?_, ends, ?_⟩
      · change (value.kind.read r >>= fun read => _) = _
        rw [ranFirst]
        change (readAll (rest.map Value.kind) r₁ >>= fun read => _) = _
        rw [ranRest]
        rfl
      · rw [length, pos, List.map_cons, List.sum_cons, value.encoding_length]
        omega

/-- A second stream over the same buffer, with any bytes behind the buffer, reads back
what was written, and the writer's position is the sum of the encoded sizes. -/
theorem stream_reads_back (buffer : Addresses) (size : UInt32) (values : List Value)
    (s : SerializeStream) (written : writeAll values (ofBuffer buffer size) = .ok ((), s)) :
    s.pos.toNat = (values.map Value.encodedSize).sum ∧
      ∀ memory : Addresses, (∀ address < size.toNat, memory address = s.buffer address) →
        ∃ r, readAll (values.map Value.kind) (ofBuffer memory size) = .ok (values, r) ∧
          r.pos = s.pos := by
  constructor
  · obtain ⟨-, -, -, length⟩ := readAll_restores (r := ofBuffer s.buffer size) written rfl rfl
      (fun _ _ => rfl)
    simpa [ofBuffer] using length
  · intro memory same
    obtain ⟨r, ran, ends, -⟩ := readAll_restores (r := ofBuffer memory size) written rfl rfl same
    exact ⟨r, ran, ends⟩

/-- A byte, a string, a negative number and a raw block. -/
def greeting : List Value :=
  [.uint8 200, .string [104, 105], .int32 (-1), .bytes [1, 2]]

theorem greeting_reads_back : ∃ s,
    writeAll greeting (ofBuffer (fun _ => 0) 17) = .ok ((), s) ∧
      s.pos.toNat = (greeting.map Value.encodedSize).sum ∧
        ∀ memory : Addresses,
          (∀ address < (17 : UInt32).toNat, memory address = s.buffer address) →
          ∃ r, readAll (greeting.map Value.kind) (ofBuffer memory 17) = .ok (greeting, r) ∧
            r.pos = s.pos := by
  have fits : (writeAll greeting (ofBuffer (fun _ => 0) 17)).isOk := by decide +kernel
  cases written : writeAll greeting (ofBuffer (fun _ => 0) 17) with
  | error failed =>
      rw [written] at fits
      cases fits
  | ok made => exact ⟨made.2, rfl, stream_reads_back (fun _ => 0) 17 greeting made.2 written⟩

end Sequences

end CrossOver.Engine.SerializeStream
