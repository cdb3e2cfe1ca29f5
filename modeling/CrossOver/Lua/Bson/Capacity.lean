import CrossOver.Lua.Bson.Buffer

/-!
# What fits into the buffer

The capacity is a power of two of type `int`, so a block holds `2 ^ 30` bytes at
most and doubling that one overflows.  `Emits` refines `Appends` by what happens
at this bound: a writer goes beyond it never, and up to it unless it asks for the
last byte from a smaller block.  `Stops` is the specification of a writer that
raises an error.
-/

namespace CrossOver.Lua.Bson

open CrossOver.Lib

/-- The capacity is a power of two, and not twice as large as it has to be. -/
structure Grown (b : Buffer) : Prop where
  power : ∃ k, b.memory.length = 2 ^ k
  within : b.memory.length ≤ 2 ^ 30
  tight : b.memory.length = defaultCap ∨ b.memory.length ≤ 2 * b.size

theorem create_grown : Grown Buffer.create := ⟨⟨6, rfl⟩, by decide, .inl rfl⟩

section Doubling

variable {cap needed : Nat}

theorem power_below (limit : Nat) (power : ∃ k, cap = 2 ^ k) (below : cap < 2 ^ (limit + 1)) :
    cap ≤ 2 ^ limit := by
  obtain ⟨k, rfl⟩ := power
  have smaller := (Nat.pow_lt_pow_iff_right (by decide)).mp below
  exact Nat.pow_le_pow_right (by decide) (by omega)

theorem power_double (power : ∃ k, cap = 2 ^ k) : ∃ k, 2 * cap = 2 ^ k := by
  obtain ⟨k, rfl⟩ := power
  exact ⟨k + 1, by ring⟩

theorem doubled_power (fuel : Nat) (power : ∃ k, cap = 2 ^ k) (below : cap ≤ needed)
    {result : Nat} (success : doubled fuel cap needed = .ok result) :
    (∃ k, result = 2 ^ k) ∧ result ≤ 2 * needed ∧ result ≤ 2 ^ 30 := by
  induction fuel generalizing cap with
  | zero => cases success
  | succ fuel inductionHypothesis =>
      have twice := power_double power
      simp only [doubled] at success
      split_ifs at success with wide again
      · exact inductionHypothesis twice again success
      · cases success
        exact ⟨twice, by omega, power_below 30 twice (by omega)⟩

theorem doubled_overflow (fuel : Nat) (enough : 2 ^ 31 ≤ cap * 2 ^ fuel)
    (power : ∃ k, cap = 2 ^ k) (within : cap ≤ 2 ^ 30) (large : 2 ^ 30 ≤ needed) :
    doubled fuel cap needed = .error .overflow := by
  induction fuel generalizing cap with
  | zero => omega
  | succ fuel inductionHypothesis =>
      have twice := power_double power
      simp only [doubled]
      split_ifs with wide again
      · rfl
      · refine inductionHypothesis ?_ twice (power_below 30 twice (by omega))
        calc 2 ^ 31 ≤ cap * 2 ^ (fuel + 1) := enough
          _ = 2 * cap * 2 ^ fuel := by ring
      · have reached := power_below 30 twice (by omega)
        omega

end Doubling

section Reserving

variable {b : Buffer}

/-- Everything `bson_reserve` does. -/
inductive Reserved (b : Buffer) (sz : Nat) : Except Failure (Unit × Buffer) → Prop where
  | fits : b.size + sz ≤ b.memory.length → Reserved b sz (.ok ((), b))
  | moves (cap : Nat) : b.memory.length < b.size + sz → b.size + sz < 2 ^ 30 →
      (∃ k, cap = 2 ^ k) → b.size + sz < cap → cap ≤ 2 * (b.size + sz) → cap ≤ 2 ^ 30 →
      Reserved b sz (.ok ((), reallocated b cap))
  | fails : b.memory.length < b.size + sz → 2 ^ 30 ≤ b.size + sz →
      Reserved b sz (.error .overflow)

theorem reserve_reserved (grown : Grown b) (sz : Nat) : Reserved b sz (reserve sz b) := by
  obtain ⟨power, within, -⟩ := grown
  have positive := b.cap_le
  simp only [defaultCap] at positive
  simp only [reserve]
  split_ifs with wide fits
  · exact .fails (by omega) (by omega)
  · exact .fits fits
  · by_cases large : 2 ^ 30 ≤ b.size + sz
    · rw [doubled_overflow 31 (by omega) power within large]
      exact .fails (by omega) large
    · obtain ⟨cap, result, larger⟩ :=
        doubled_spec 31 b.memory.length (b.size + sz) (by omega) (by omega) (by omega)
      obtain ⟨capPower, twice, capWithin⟩ := doubled_power 31 power (by omega) result
      rw [result]
      exact .moves cap (by omega) (by omega) capPower larger twice capWithin

theorem reallocated_length (b : Buffer) {cap : Nat} (larger : b.memory.length ≤ cap) :
    (reallocated b cap).memory.length = cap := by
  simp only [reallocated, List.length_append, List.length_replicate]
  omega

end Reserving

/-- The writer adds `bytes`, and overflows where these do not fit any more. -/
structure Emits (x : Writer Unit) (bytes : Bytes) : Prop where
  appends : Appends x bytes
  fits : ∀ b, Grown b → b.size + bytes.length ≤ 2 ^ 30 → x b = .error .overflow ∨
    ∃ next, x b = .ok ((), next) ∧ next.content = b.content ++ bytes ∧ Grown next
  overflows : ∀ b, Grown b → 2 ^ 30 < b.size + bytes.length → x b = .error .overflow

section Writers

variable {x y : Writer Unit} {front back bytes : Bytes} {b next : Buffer}

theorem size_of_content (content : next.content = b.content ++ bytes) :
    next.size = b.size + bytes.length := by
  have size := congrArg List.length content
  simpa only [List.length_append, Buffer.content_length] using size

theorem Emits.below (emits : Emits x bytes) (grown : Grown b)
    (bound : b.size + bytes.length < 2 ^ 30) :
    ∃ next, x b = .ok ((), next) ∧ next.content = b.content ++ bytes ∧ Grown next := by
  obtain ⟨next, result, -⟩ := emits.appends b bound
  rcases emits.fits b grown (by omega) with overflow | success
  · rw [overflow] at result
    cases result
  · exact success

theorem store_capacity {data : Bytes} (success : store data b = .ok ((), next)) :
    next.memory.length = b.memory.length := by
  simp only [store] at success
  split_ifs at success with room
  cases success
  exact memcpy_length room

theorem store_grown (b : Buffer) (data : Bytes)
    (room : b.size + data.length ≤ b.memory.length)
    (power : ∃ k, b.memory.length = 2 ^ k) (within : b.memory.length ≤ 2 ^ 30)
    (tight : b.memory.length = defaultCap ∨ b.memory.length ≤ 2 * (b.size + data.length)) :
    ∃ next, store data b = .ok ((), next) ∧ next.content = b.content ++ data ∧ Grown next := by
  obtain ⟨next, result, content⟩ := store_spec b data room
  have capacity := store_capacity result
  rw [← size_of_content content] at tight
  rw [← capacity] at power within tight
  exact ⟨next, result, content, power, within, tight⟩

/-- What `append` does when the buffer holds the new bytes or is moved to a larger block. -/
theorem append_grown (grown : Grown b) (data : Bytes)
    (success : ∀ failure, reserve data.length b ≠ .error failure) :
    ∃ next, append data b = .ok ((), next) ∧ next.content = b.content ++ data ∧ Grown next := by
  have reserved := reserve_reserved grown data.length
  have ran : append data b = reserve data.length b >>= fun read => store data read.2 := rfl
  have before := b.size_le
  obtain ⟨power, within, tight⟩ := grown
  generalize reserve data.length b = result at reserved success ran
  rw [ran]
  cases reserved with
  | fits fits =>
      obtain ⟨next, stored, content, kept⟩ := store_grown b data fits power within (by omega)
      exact ⟨next, stored, content, kept⟩
  | moves cap full small capPower larger twice capWithin =>
      have length := reallocated_length b (Nat.le_of_lt (Nat.lt_trans full larger))
      obtain ⟨next, stored, content, kept⟩ :=
        store_grown (reallocated b cap) data
          (by rw [length]; exact Nat.le_of_lt larger) (by rwa [length]) (by rwa [length])
          (.inr (by rw [length]; exact twice))
      refine ⟨next, stored, ?_, kept⟩
      rw [content]
      exact congrArg (· ++ data) (List.take_append_of_le_length b.size_le)
  | fails full large => exact absurd rfl (success .overflow)

theorem append_emits (data : Bytes) : Emits (append data) data where
  appends := append_appends data
  fits := by
    intro b grown bound
    by_cases overflow : reserve data.length b = .error .overflow
    · left
      change (reserve data.length b >>= fun read => store data read.2) = _
      rw [overflow]
      rfl
    · right
      refine append_grown grown data ?_
      intro failure failed
      have reserved := reserve_reserved grown data.length
      rw [failed] at reserved
      cases reserved
      exact overflow failed
  overflows := by
    intro b grown large
    have reserved := reserve_reserved grown data.length
    have within := grown.within
    have ran : append data b = reserve data.length b >>= fun read => store data read.2 := rfl
    generalize reserve data.length b = result at reserved ran
    rw [ran]
    cases reserved with
    | fits fits => omega
    | moves cap full small => omega
    | fails full wide => rfl

theorem Emits.seq (first : Emits x front) (second : Emits y back) :
    Emits (do x; y) (front ++ back) where
  appends := first.appends.seq second.appends
  fits := by
    intro b grown bound
    rw [List.length_append] at bound
    change (x b >>= fun read => y read.2) = _ ∨ ∃ next, (x b >>= fun read => y read.2) = _ ∧ _
    rcases first.fits b grown (by omega) with overflow | ⟨middle, result, content, kept⟩
    · rw [overflow]
      exact .inl rfl
    · have size := size_of_content content
      rw [result]
      rcases second.fits middle kept (by omega) with overflow | ⟨next, result, more, keptThere⟩
      · exact .inl overflow
      · exact .inr ⟨next, result, by rw [more, content, List.append_assoc], keptThere⟩
  overflows := by
    intro b grown large
    rw [List.length_append] at large
    change (x b >>= fun read => y read.2) = _
    by_cases here : b.size + front.length ≤ 2 ^ 30
    · rcases first.fits b grown here with overflow | ⟨middle, result, content, kept⟩
      · rw [overflow]
        rfl
      · have size := size_of_content content
        rw [result]
        exact second.overflows middle kept (by omega)
    · rw [first.overflows b grown (by omega)]
      rfl

theorem Emits.none : Emits (pure ()) [] where
  appends := Appends.none
  fits := fun b grown _ => .inr ⟨b, rfl, by simp, grown⟩
  overflows := by
    intro b grown large
    have filled := b.size_le
    have within := grown.within
    simp only [List.length_nil] at large
    omega

theorem writeLength_grown {v : Int} {off : Nat} (grown : Grown b)
    (success : writeLength v off b = .ok ((), next)) : Grown next := by
  simp only [writeLength] at success
  split_ifs at success with fits
  cases success
  have same : (memcpy b.memory off (intBytes 4 v)).length = b.memory.length :=
    memcpy_length (by simpa [intBytes] using fits)
  obtain ⟨power, within, tight⟩ := grown
  exact ⟨by rwa [same], by rwa [same], by rwa [same]⟩

theorem reserveLength_ran {Result : Type} (rest : Nat → Writer Result) (b : Buffer) :
    (reserveLength >>= rest) b = (do append [0, 0, 0, 0]; rest b.size : Writer Result) b := by
  change ((append [0, 0, 0, 0] b >>= fun read => Except.ok (b.size, read.2)) >>= _) = _
  rw [bind_assoc]
  rfl

/-- A body behind a length that is filled in once the body is there. -/
theorem Emits.patched {body : Writer Unit} {last : Nat → Writer Unit} (value : Int)
    (emits : Emits body bytes)
    (fills : ∀ off b, b.size = off + 4 + bytes.length → last off b = writeLength value off b) :
    Emits (do
      let off ← reserveLength
      body
      last off) (intBytes 4 value ++ bytes) := by
  have opened := (append_emits [0, 0, 0, 0]).seq emits
  have ran : ∀ b : Buffer, (do
      let off ← reserveLength
      body
      last off : Writer Unit) b =
        (do append [0, 0, 0, 0]; body : Writer Unit) b >>= fun after => last b.size after.2 := by
    intro b
    rw [reserveLength_ran]
    exact (bind_assoc (append [0, 0, 0, 0] b) _ _).symm
  have width : (intBytes 4 value ++ bytes).length = ([0, 0, 0, 0] ++ bytes : Bytes).length := by
    rw [List.length_append, List.length_append]
    simp [intBytes]
  refine ⟨emits.appends.patched value fills, fun b grown bound => ?_, fun b grown large => ?_⟩
  · rw [width] at bound
    rw [ran]
    rcases opened.fits b grown bound with overflow | ⟨filled, result, content, kept⟩
    · rw [overflow]
      exact .inl rfl
    · have size := size_of_content content
      obtain ⟨next, patchResult, patchContent⟩ :=
        writeLength_spec filled value b.content [0, 0, 0, 0] bytes rfl
          (by rw [content, List.append_assoc])
      have keptThere := writeLength_grown kept patchResult
      rw [Buffer.content_length, ← fills b.size filled (by simp at size; omega)] at patchResult
      rw [result]
      exact .inr ⟨next, patchResult, by rw [patchContent, List.append_assoc], keptThere⟩
  · rw [width] at large
    rw [ran, opened.overflows b grown large]
    rfl

/-- One byte more always fits below the largest block. -/
theorem writeByte_edge (grown : Grown b) (v : UInt8) (bound : b.size + 1 ≤ 2 ^ 30) :
    ∃ next, writeByte v b = .ok ((), next) ∧ next.content = b.content ++ [v] ∧ Grown next := by
  refine append_grown grown [v] ?_
  intro failure failed
  have reserved := reserve_reserved grown 1
  have filled := b.size_le
  have power := grown.power
  change reserve 1 b = _ at failed
  rw [failed] at reserved
  cases reserved with
  | fails full large =>
      have half := power_below 29 power (by omega)
      omega

/-- Where the document ends below the bound it may reach it with its last byte. -/
theorem Emits.closed (emits : Emits x front) (grown : Grown b) (v : UInt8)
    (bound : b.size + front.length + 1 ≤ 2 ^ 30) :
    ∃ next, (do x; writeByte v : Writer Unit) b = .ok ((), next) ∧
      next.content = b.content ++ (front ++ [v]) ∧ Grown next := by
  obtain ⟨middle, result, content, kept⟩ := emits.below grown (by omega)
  have size := size_of_content content
  obtain ⟨next, last, more, keptThere⟩ := writeByte_edge kept v (by omega)
  refine ⟨next, ?_, by rw [more, content, List.append_assoc], keptThere⟩
  change (x b >>= fun read => writeByte v read.2) = _
  rw [result]
  exact last

/-- A short last part fits because the part in front of it has made the block large. -/
theorem append_edge_fits (grown : Grown b) (data : Bytes) (whole : b.size + data.length = 2 ^ 30)
    (short : data.length < 2 ^ 29) :
    ∃ next, append data b = .ok ((), next) ∧ next.content = b.content ++ data ∧ Grown next := by
  refine append_grown grown data ?_
  intro failure failed
  have reserved := reserve_reserved grown data.length
  have filled := b.size_le
  have power := grown.power
  rw [failed] at reserved
  cases reserved with
  | fails full large =>
      have half := power_below 29 power (by omega)
      omega

theorem writeByte_capacity (grown : Grown b) (v : UInt8)
    (success : writeByte v b = .ok ((), next)) :
    next.memory.length = b.memory.length ∨
      b.memory.length = b.size ∧ next.memory.length ≤ 2 * (b.size + 1) := by
  have reserved := reserve_reserved grown 1
  have filled := b.size_le
  change (reserve 1 b >>= fun read => store [v] read.2) = _ at success
  generalize reserve 1 b = outcome at reserved success
  cases reserved with
  | fits fits => exact .inl (store_capacity success)
  | moves cap full bound power larger twice within =>
      right
      rw [store_capacity success, reallocated_length b (by omega)]
      exact ⟨by omega, twice⟩
  | fails full large => cases success

/-- Behind a single byte the block is still too small for a long last part. -/
theorem append_edge_overflows (grown : Grown b) (v : UInt8) (data : Bytes)
    (whole : b.size + 1 + data.length = 2 ^ 30) (long : 2 ^ 29 ≤ data.length) :
    (do writeByte v; append data : Writer Unit) b = .error .overflow := by
  obtain ⟨next, result, content, kept⟩ := writeByte_edge grown v (by omega)
  have size := size_of_content content
  rw [List.length_singleton] at size
  have small : next.memory.length ≤ 2 ^ 29 := by
    have tight := grown.tight
    simp only [defaultCap] at tight
    refine power_below 29 kept.power ?_
    rcases writeByte_capacity grown v result with same | ⟨filled, twice⟩
    · omega
    · have half := power_below 28 grown.power (by omega)
      omega
  change (writeByte v b >>= fun read => append data read.2) = _
  rw [result]
  change (reserve data.length next >>= fun read => store data read.2) = _
  have reserved := reserve_reserved kept data.length
  generalize reserve data.length next = outcome at reserved
  cases reserved with
  | fits fits => omega
  | moves cap full bound => omega
  | fails full large => rfl

end Writers

section Stopping

/-- The bytes written up to an error, and the length of the name among them that
was written last. -/
structure Cut where
  written : Nat
  name : Nat

/-- The bytes fit.  A name that takes the last byte must not be so long that the
block was too small in front of it. -/
def Cut.Fits (cut : Cut) (size : Nat) : Prop :=
  size + cut.written < 2 ^ 30 ∨ size + cut.written = 2 ^ 30 ∧ cut.name + 1 < 2 ^ 29

/-- The writer ends in a Lua error behind these bytes. -/
structure Stops {Result : Type} (x : Writer Result) (cut : Cut) : Prop where
  positive : 0 < cut.written
  raises : ∀ b, Grown b → cut.Fits b.size → ∃ message, x b = .error (.luaError message)
  overflows : ∀ b, Grown b → ¬ cut.Fits b.size → x b = .error .overflow

variable {First Second : Type} {x : Writer Unit} {front : Bytes} {cut : Cut} {b : Buffer}

def Cut.behind (cut : Cut) (count : Nat) : Cut := { cut with written := count + cut.written }

theorem Cut.behind_behind (cut : Cut) (first second : Nat) :
    (cut.behind first).behind second = cut.behind (second + first) := by
  simp only [Cut.behind, Nat.add_assoc]

theorem Cut.fits_behind (cut : Cut) (count size : Nat) :
    (cut.behind count).Fits size ↔ cut.Fits (size + count) := by
  simp only [Cut.Fits, Cut.behind]
  omega

theorem Stops.bind {x : Writer First} (stops : Stops x cut) (f : First → Writer Second) :
    Stops (x >>= f) cut where
  positive := stops.positive
  raises := by
    intro b grown fits
    obtain ⟨message, failed⟩ := stops.raises b grown fits
    refine ⟨message, ?_⟩
    change (x b >>= fun read => f read.1 read.2) = _
    rw [failed]
    rfl
  overflows := by
    intro b grown full
    change (x b >>= fun read => f read.1 read.2) = _
    rw [stops.overflows b grown full]
    rfl

/-- The bytes in front of those that are written before the error. -/
theorem Emits.stops {y : Writer Second} (emits : Emits x front) (stops : Stops y cut) :
    Stops (do x; y) (cut.behind front.length) where
  positive := Nat.add_pos_right _ stops.positive
  raises := by
    intro b grown fits
    have positive := stops.positive
    rw [Cut.fits_behind] at fits
    obtain ⟨middle, result, content, kept⟩ := emits.below grown (by
      simp only [Cut.Fits] at fits
      omega)
    rw [← size_of_content content] at fits
    obtain ⟨message, failed⟩ := stops.raises middle kept fits
    refine ⟨message, ?_⟩
    change (x b >>= fun read => y read.2) = _
    rw [result]
    exact failed
  overflows := by
    intro b grown full
    rw [Cut.fits_behind] at full
    change (x b >>= fun read => y read.2) = _
    by_cases here : b.size + front.length ≤ 2 ^ 30
    · rcases emits.fits b grown here with overflow | ⟨middle, result, content, kept⟩
      · rw [overflow]
        rfl
      · rw [← size_of_content content] at full
        rw [result]
        exact stops.overflows middle kept full
    · rw [emits.overflows b grown (by omega)]
      rfl

theorem Stops.behindLength {f : Nat → Writer Second} (stops : ∀ off, Stops (f off) cut) :
    Stops (reserveLength >>= f) (cut.behind 4) where
  positive := Nat.add_pos_right _ (stops 0).positive
  raises := by
    intro b grown fits
    rw [reserveLength_ran]
    exact ((append_emits [0, 0, 0, 0]).stops (stops b.size)).raises b grown fits
  overflows := by
    intro b grown full
    rw [reserveLength_ran]
    exact ((append_emits [0, 0, 0, 0]).stops (stops b.size)).overflows b grown full

/-- A writer that adds its bytes, or ends in an error on the way. -/
def Packs (x : Writer Unit) (bytes : Bytes) : Option Cut → Prop
  | none => Emits x bytes
  | some cut => Stops x cut

theorem Packs.seq {y : Writer Unit} {back : Bytes} {rest : Option Cut} (emits : Emits x front)
    (packs : Packs y back rest) :
    Packs (do x; y) (front ++ back) (rest.map fun cut => cut.behind front.length) := by
  cases rest with
  | none => exact emits.seq packs
  | some cut => exact emits.stops packs

end Stopping

end CrossOver.Lua.Bson
