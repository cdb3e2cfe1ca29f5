import CrossOver.Lua.Bson.RoundTrip
import CrossOver.Lua.Bson.Safety

/-!
# When the readers of a document come to an end

`lmakeindex` passes over a value without looking at it, so a negative length takes
it back to elements it has seen: behind a `Gentle` one it still stands in the
memory, but it may go round for ever.  Its reader always ends at the same byte, so
there are no more readers than bytes, and it comes to an end exactly when none of
them is met twice.
-/

namespace CrossOver.Lua.Bson

open CrossOver.Lib

/-- The length in front of a value, where there is one, leads to a place in the memory. -/
structure Gentle (bt : UInt8) (r : Reader) : Prop where
  string : bt = bsonJscode ∨ bt = bsonSymbol ∨ bt = bsonString → 0 ≤ r.ptr + 4 + lengthAt r
  document : bt = bsonCodews ∨ bt = bsonArray ∨ bt = bsonDocument → 0 ≤ r.ptr + lengthAt r
  binary : bt = bsonBinary → lengthAt r + 1 < 2 ^ 31 ∧ 0 ≤ r.ptr + 5 + lengthAt r
  dbpointer : bt = bsonDbpointer → lengthAt r + 12 < 2 ^ 31 ∧ 0 ≤ r.ptr + 16 + lengthAt r

structure SameEnd (r t : Reader) : Prop where
  memory : t.memory = r.memory
  finish : t.ptr + t.size = r.ptr + r.size
  left : 0 ≤ t.size

theorem SameEnd.trans {r s t : Reader} (first : SameEnd r s) (second : SameEnd s t) :
    SameEnd r t :=
  ⟨second.memory.trans first.memory, second.finish.trans first.finish, second.left⟩

theorem SameEnd.move {r : Reader} {moved : Int} (enough : moved ≤ r.size) :
    SameEnd r (r.move moved) := by
  refine ⟨rfl, ?_, ?_⟩
  all_goals
    simp only [Reader.move_ptr, Reader.move_size]
    omega

theorem Onward.sameEnd {r t : Reader} (onward : Onward r t) : SameEnd r t := by
  obtain ⟨moved, -, enough, rfl⟩ := onward
  exact .move enough

theorem SameEnd.framed {r t : Reader} (same : SameEnd r t) (framed : Framed r)
    (first : 0 ≤ t.ptr) : Framed t := by
  obtain ⟨memory, finish, left⟩ := same
  obtain ⟨_, _, inside, narrow⟩ := framed
  exact ⟨first, left, by rw [memory]; omega, by omega⟩

section Passing

variable {fails : Failure → Prop} {r : Reader} {bt : UInt8}

theorem passValue_behaves (raises : ∀ message, fails (.luaError message)) (framed : Framed r)
    (behind : Int)
    (fine : 4 ≤ r.size → (lengthAt r + behind < 2 ^ 31 ∧
      0 ≤ r.ptr + 4 + (lengthAt r + behind)) ∨ ∀ failure, fails failure) :
    Behaves fails (passValue behind)
      (fun _ t => SameEnd r t ∧ (Framed t ∨ ∀ failure, fails failure)) r := by
  refine (readInt32_behaves raises framed).seq ?_
  rintro sz t ⟨length, rfl, head⟩
  rw [← length] at fine
  have room := fine head
  have placed := framed
  obtain ⟨first, left, inside, narrow⟩ := framed
  refine (intExpr_behaves (room.imp_left fun ahead => ⟨by omega, ahead.1⟩)).seq ?_
  rintro rest t ⟨rfl, rfl, -⟩
  refine (readBytes_behaves raises fun enough => room.imp_left fun ahead => ?_).seq ?_
  · rw [Reader.move_size] at enough ⊢
    exact ⟨by omega, by omega⟩
  rintro ptr t ⟨-, rfl, enough⟩
  rw [Reader.move_size] at enough
  rw [behaves_pure, Reader.move_move]
  exact ⟨.move (by omega), room.imp_left fun ahead => placed.move (by omega) (by omega)⟩

theorem fieldSize_behaves (raises : ∀ message, fails (.luaError message)) (framed : Framed r)
    (fine : (4 ≤ r.size → Gentle bt r) ∨ ∀ failure, fails failure) :
    Behaves fails (fieldSize bt)
      (fun _ t => SameEnd r t ∧ (Framed t ∨ ∀ failure, fails failure)) r := by
  have stays : SameEnd r r := ⟨rfl, rfl, framed.left⟩
  have upper := (lengthAt_fits r).2
  unfold fieldSize
  refine .ite (fun _ => ⟨stays, .inl framed⟩) fun _ => ?_
  refine .ite (fun _ => ⟨stays, .inl framed⟩) fun _ => ?_
  refine .ite (fun string => ?_) fun _ => ?_
  · refine passValue_behaves raises framed 0 fun head => fine.imp_left fun gentle => ?_
    have ahead := (gentle head).string string
    omega
  refine .ite (fun document => ?_) fun _ => ?_
  · refine passValue_behaves raises framed (-4) fun head => fine.imp_left fun gentle => ?_
    have ahead := (gentle head).document document
    omega
  refine .ite (fun binary => ?_) fun _ => ?_
  · refine passValue_behaves raises framed 1 fun head => fine.imp_left fun gentle => ?_
    have ahead := (gentle head).binary binary
    omega
  refine .ite (fun _ => ⟨stays, .inl framed⟩) fun _ => ?_
  refine .ite (fun _ => ⟨stays, .inl framed⟩) fun _ => ?_
  refine .ite (fun _ => ?_) fun _ => ?_
  · refine (readCstring_behaves raises framed).seq ?_
    rintro pattern t ⟨moved, forward, enough, rfl⟩
    have onward : Onward r (r.move moved) := ⟨moved, by omega, enough, rfl⟩
    refine (readCstring_behaves raises (onward.framed framed)).seq ?_
    rintro options t ⟨further, forward, enough, rfl⟩
    have whole := onward.move (by omega) enough
    exact ⟨whole.sameEnd, .inl (whole.framed framed)⟩
  refine .ite (fun _ => ⟨stays, .inl framed⟩) fun _ => ?_
  refine .ite (fun dbpointer => ?_) fun _ => readError_behaves raises
  · refine passValue_behaves raises framed 12 fun head => fine.imp_left fun gentle => ?_
    have ahead := (gentle head).dbpointer dbpointer
    omega

theorem indexElement_eq : indexElement = (do
    let head ← readHead
    let size ← fieldSize head.1
    if 0 < size then do
      let br ← get
      let _ ← readBytes size
      return some (.string head.2, .integer (fieldId head.1 br.ptr))
    else return none) := by
  simp only [indexElement, readHead, bind_assoc, pure_bind]

theorem indexElement_behaves (raises : ∀ message, fails (.luaError message)) (fair : Fair r)
    (more : r.size ≠ 0)
    (fine : (∀ bt s, Heads r bt s → 4 ≤ s.size → Gentle bt s) ∨ ∀ failure, fails failure) :
    Behaves fails indexElement
      (fun _ t => SameEnd r t ∧ (Framed t ∨ ∀ failure, fails failure)) r := by
  rw [indexElement_eq]
  refine (readHead_behaves raises fair).ran.seq ?_
  rintro ⟨bt, key⟩ s ⟨⟨framed, onward, -⟩, read⟩
  have heads : Heads r bt s := ⟨more, key, read⟩
  refine (fieldSize_behaves raises (onward.framed framed)
    (fine.imp_left fun gentle => gentle bt s heads)).seq ?_
  rintro size t ⟨same, placed⟩
  have whole := onward.sameEnd.trans same
  refine .ite (fun positive => ?_) fun _ => behaves_pure.mpr ⟨whole, placed⟩
  rw [behaves_bind, behaves_get]
  refine (readBytes_behaves raises fun enough => placed.imp_left fun framed => ?_).seq ?_
  · have first := framed.first
    have narrow := framed.narrow
    exact ⟨by omega, by omega⟩
  rintro ptr u ⟨-, rfl, enough⟩
  rw [behaves_pure]
  refine ⟨whole.trans (.move enough), placed.imp_left fun framed => framed.move ?_ enough⟩
  have first := framed.first
  omega

end Passing

/-- One turn of the loop of `lmakeindex`. -/
def IndexStep (r t : Reader) : Prop := r.size ≠ 0 ∧ ∃ field, indexElement r = .ok (field, t)

theorem IndexStep.sameEnd {r t : Reader} (step : IndexStep r t) (fair : Fair r) :
    SameEnd r t := by
  obtain ⟨more, field, passed⟩ := step
  have behaves : Behaves (fun _ => True) indexElement _ r :=
    indexElement_behaves (fun _ => trivial) fair more (.inr fun _ => trivial)
  exact (behaves.returned passed).1

theorem indexElements_turn {r : Reader} (more : r.size ≠ 0) (fuel : Nat) (entries : List Entry) :
    indexElements (fuel + 1) entries r = (indexElement r >>= fun made =>
      indexElements fuel (storeField entries made.1) made.2) := by
  change (if r.size = 0 then pure entries else do
    let field ← indexElement
    indexElements fuel (storeField entries field) : Decoder (List Entry)) r = _
  rw [if_neg more]
  rfl

theorem indexElements_step {r t : Reader} (step : IndexStep r t) :
    ∃ field, ∀ fuel entries, indexElements (fuel + 1) entries r =
      indexElements fuel (storeField entries field) t := by
  obtain ⟨more, field, passed⟩ := step
  refine ⟨field, fun fuel entries => ?_⟩
  rw [indexElements_turn more, passed]
  rfl

theorem indexElements_walk {fuel : Nat} {r t : Reader} (walked : Walk IndexStep fuel r t)
    (entries : List Entry) : indexElements fuel entries r = .error .outOfFuel := by
  induction fuel generalizing r entries with
  | zero => rfl
  | succ fuel inductionHypothesis =>
      obtain ⟨s, step, rest⟩ := walked
      obtain ⟨field, turn⟩ := indexElements_step step
      rw [turn]
      exact inductionHypothesis rest _

/-- The readers met from here on stay in the memory. -/
def AllGentle (r : Reader) : Prop :=
  ∀ t bt s, Relation.ReflTransGen IndexStep r t → Heads t bt s → 4 ≤ s.size → Gentle bt s

theorem AllGentle.step {r t : Reader} (gentle : AllGentle r) (step : IndexStep r t) :
    AllGentle t := fun u bt s reached => gentle u bt s (.head step reached)

theorem AllGentle.framed {r t : Reader} (gentle : AllGentle r) (fair : Fair r)
    (step : IndexStep r t) : Framed t := by
  obtain ⟨more, field, passed⟩ := step
  have behaves : Behaves IsLuaError indexElement _ r :=
    indexElement_behaves (fun message => ⟨message, rfl⟩) fair more
      (.inl fun bt s => gentle r bt s .refl)
  refine (behaves.returned passed).2.resolve_right fun all => ?_
  obtain ⟨message, same⟩ := all .overflow
  cases same

/-- The loop settles, or its steps use up the fuel. -/
theorem indexElements_ends (fuel : Nat) (entries : List Entry) {r : Reader} (fair : Fair r)
    (gentle : AllGentle r) :
    Settles (indexElements fuel entries r) ∨ ∃ t, Walk IndexStep fuel r t := by
  induction fuel generalizing r entries with
  | zero => exact .inr ⟨r, rfl⟩
  | succ fuel inductionHypothesis =>
      by_cases more : r.size = 0
      · refine .inl fun failure failed => ?_
        change (if r.size = 0 then pure entries else _ : Decoder (List Entry)) r = _ at failed
        rw [if_pos more] at failed
        cases failed
      · cases ran : indexElement r with
        | error failure =>
            have behaves : Behaves IsLuaError indexElement _ r :=
              indexElement_behaves (fun message => ⟨message, rfl⟩) fair more
                (.inl fun bt s => gentle r bt s .refl)
            refine .inl fun other failed => ?_
            rw [indexElements_turn more, ran] at failed
            cases failed
            exact behaves.failed ran
        | ok made =>
            have step : IndexStep r made.2 := ⟨more, made.1, ran⟩
            obtain ⟨field, turn⟩ := indexElements_step step
            rw [turn]
            refine (inductionHypothesis _ (fun _ => gentle.framed fair step)
              (gentle.step step)).imp_right ?_
            rintro ⟨t, walked⟩
            exact ⟨t, made.2, step, walked⟩

theorem IndexStep.framed {r t : Reader} (step : IndexStep r t) (fair : Fair r) : Framed r := by
  obtain ⟨more, field, passed⟩ := step
  rw [indexElement_eq] at passed
  have head : Behaves (fun _ => True) readHead _ r := readHead_behaves (fun _ => trivial) fair
  obtain ⟨made, read, -⟩ := bind_eq_ok.mp passed
  exact (head.returned read).1

theorem AllGentle.reached {r t : Reader} (gentle : AllGentle r) (framed : Framed r)
    (reached : Relation.ReflTransGen IndexStep r t) : Framed t ∧ SameEnd r t := by
  induction reached with
  | refl => exact ⟨framed, rfl, rfl, framed.left⟩
  | tail earlier step inductionHypothesis =>
      obtain ⟨placed, same⟩ := inductionHypothesis
      have fair : Fair _ := fun _ => placed
      have onward : AllGentle _ := fun u bt s later => gentle u bt s (earlier.trans later)
      exact ⟨onward.framed fair step, same.trans (step.sameEnd fair)⟩

/-- There are no more readers with one end than bytes in front of it. -/
theorem walk_short {fuel : Nat} {r t : Reader} (framed : Framed r) (gentle : AllGentle r)
    (once : ∀ u, Relation.ReflTransGen IndexStep r u → ¬ Relation.TransGen IndexStep u u)
    (walked : Walk IndexStep fuel r t) : fuel ≤ r.memory.length := by
  let place (ptr : Nat) : Reader :=
    { memory := r.memory, ptr := ptr, size := r.ptr + r.size - ptr }
  have inside : ∀ u, Relation.ReflTransGen IndexStep r u →
      u ∈ (Finset.range (r.memory.length + 1)).image place := by
    intro u reached
    obtain ⟨placed, same⟩ := gentle.reached framed reached
    obtain ⟨first, left, inside, -⟩ := placed
    obtain ⟨memory, finish, -⟩ := same
    rw [memory] at inside
    refine Finset.mem_image.mpr ⟨u.ptr.toNat, Finset.mem_range.mpr (by omega), ?_⟩
    obtain ⟨uMemory, uPtr, uSize⟩ := u
    simp only [Reader.mk.injEq, place] at *
    exact ⟨memory.symm, by omega, by omega⟩
  have short := walked.short inside once
  have count := Finset.card_image_le (s := Finset.range (r.memory.length + 1)) (f := place)
  rw [Finset.card_range] at count
  omega

section Unsettled

variable {r t s : Reader} {bt : UInt8}

theorem indexElements_outside (before : r.ptr < 0) (some : 1 ≤ r.size) (fuel : Nat)
    (entries : List Entry) : ¬ Settles (indexElements fuel entries r) := by
  intro settles
  cases fuel with
  | zero => exact not_settles_outOfFuel rfl settles
  | succ fuel =>
      rw [indexElements_turn (by omega)] at settles
      have turn : Settles ((indexElement >>= fun field =>
        indexElements fuel (storeField entries field)) r) := settles
      exact readByte_outside before some turn.first.first

theorem Settles.turn {fuel : Nat} {entries : List Entry}
    (settles : Settles (indexElements (fuel + 1) entries r)) (heads : Heads r bt s) :
    ∃ key, Settles ((do
      let size ← fieldSize bt
      let field ← (if 0 < size then do
        let br ← get
        let _ ← readBytes size
        return some (.string key, .integer (fieldId bt br.ptr))
      else return none : Decoder (Option Entry))
      indexElements fuel (storeField entries field) : Decoder (List Entry)) s) := by
  obtain ⟨more, key, read⟩ := heads
  rw [indexElements_turn more] at settles
  have turn : Settles ((indexElement >>= fun field =>
    indexElements fuel (storeField entries field)) r) := settles
  rw [indexElement_eq, bind_assoc] at turn
  have rest := turn.rest read
  rw [bind_assoc] at rest
  exact ⟨key, rest⟩

theorem passValue_ok {sz ptr behind : Int} {u : Reader} (read : readInt32 r = .ok (sz, s))
    (fits : FitsInt (sz + behind)) (moved : readBytes (sz + behind) s = .ok (ptr, u)) :
    passValue behind r = .ok (0, u) := by
  change (readInt32 r >>= fun read => intExpr (read.1 + behind) read.2 >>= fun rest =>
    readBytes rest.1 rest.2 >>= fun moved => Except.ok (0, moved.2)) = _
  rw [read]
  change (intExpr (sz + behind) s >>= fun rest =>
    readBytes rest.1 rest.2 >>= fun moved => Except.ok (0, moved.2)) = _
  rw [intExpr_ok fits]
  change (readBytes (sz + behind) s >>= fun moved => Except.ok (0, moved.2)) = _
  rw [moved]
  rfl

/-- Where the length is passed over and the rest settles, it leads to a place in the memory. -/
theorem passValue_ahead {rest : Int → Decoder (List Entry)} {behind : Int} (framed : Framed s)
    (head : 4 ≤ s.size) (settles : Settles ((passValue behind >>= rest) s))
    (outside : ∀ t : Reader, t.ptr < 0 → 1 ≤ t.size → ¬ Settles (rest 0 t)) :
    FitsInt (lengthAt s + behind) ∧ 0 ≤ s.ptr + 4 + (lengthAt s + behind) := by
  have length := readInt32_ok framed head
  have counted := settles.first.rest length
  have fits := counted.first.fits
  refine ⟨fits, ?_⟩
  obtain ⟨first, left, inside, narrow⟩ := framed
  by_contra low
  have asked := counted.rest (intExpr_ok fits)
  have enough : lengthAt s + behind ≤ (s.move 4).size := by
    rw [Reader.move_size]
    omega
  have moved := readBytes_moves enough (asked.first.moves enough)
  have passed := passValue_ok length fits moved
  refine outside _ ?_ ?_ (settles.rest passed)
  · simp only [Reader.move_ptr]
    omega
  · simp only [Reader.move_size]
    omega

theorem gentle_of_settles {fuel : Nat} {entries : List Entry} (fair : Fair r)
    (heads : Heads r bt s) (head : 4 ≤ s.size)
    (settles : Settles (indexElements (fuel + 1) entries r)) : Gentle bt s := by
  obtain ⟨key, turn⟩ := settles.turn heads
  have framed := (heads.onward fair).1
  have ahead : ∀ behind, fieldSize bt = passValue behind →
      FitsInt (lengthAt s + behind) ∧ 0 ≤ s.ptr + 4 + (lengthAt s + behind) := by
    intro behind same
    rw [same] at turn
    refine passValue_ahead framed head turn fun t before some settles => ?_
    exact indexElements_outside before some fuel _ (settles.rest rfl)
  constructor
  · rintro (rfl | rfl | rfl)
    all_goals
      have bound := (ahead 0 rfl).2
      omega
  · rintro (rfl | rfl | rfl)
    all_goals
      have bound := (ahead (-4) rfl).2
      omega
  · rintro rfl
    have bound := ahead 1 rfl
    exact ⟨bound.1.2, by omega⟩
  · rintro rfl
    have bound := ahead 12 rfl
    exact ⟨bound.1.2, by omega⟩

theorem indexElements_gentle {fuel : Nat} {entries : List Entry} (fair : Fair r)
    (settles : Settles (indexElements fuel entries r)) : AllGentle r := by
  intro t bt s reached heads head
  induction reached using Relation.ReflTransGen.head_induction_on generalizing fuel entries with
  | refl =>
      cases fuel with
      | zero => exact absurd settles (not_settles_outOfFuel rfl)
      | succ fuel => exact gentle_of_settles fair heads head settles
  | head step _ inductionHypothesis =>
      cases fuel with
      | zero => exact absurd settles (not_settles_outOfFuel rfl)
      | succ fuel =>
          obtain ⟨field, turn⟩ := indexElements_step step
          rw [turn] at settles
          have framed := step.framed fair
          have same := step.sameEnd fair
          refine inductionHypothesis (fun _ => same.framed framed ?_) settles
          by_contra before
          have first := framed.first
          have left := framed.left
          have finish := same.finish
          exact indexElements_outside (by omega) (by omega) fuel _ settles

end Unsettled

/-- No reader that the loop meets is met a second time. -/
def NeverAgain (r : Reader) : Prop :=
  ∀ u, Relation.ReflTransGen IndexStep r u → ¬ Relation.TransGen IndexStep u u

theorem indexElements_settles_iff {r : Reader} {fuel : Nat} (fair : Fair r)
    (enough : r.memory.length < fuel) (entries : List Entry) :
    Settles (indexElements fuel entries r) ↔ AllGentle r ∧ NeverAgain r := by
  constructor
  · intro settles
    refine ⟨indexElements_gentle fair settles, fun u reached cycle => ?_⟩
    obtain ⟨t, walked⟩ := Walk.endless reached cycle fuel
    exact not_settles_outOfFuel (indexElements_walk walked entries) settles
  · rintro ⟨gentle, once⟩
    refine (indexElements_ends fuel entries fair gentle).resolve_right ?_
    rintro ⟨t, walked⟩
    obtain ⟨fuel, rfl⟩ : ∃ f, fuel = f + 1 := ⟨fuel - 1, by omega⟩
    have ⟨s, step, _⟩ := walked
    have short := walk_short (step.framed fair) gentle once walked
    omega

section Whole

variable {memory : Bytes}

/-- The lengths that `lmakeindex` meets lead on in the document. -/
structure IndexesSafely (memory : Bytes) : Prop where
  fits : FitsInt (getLength memory - 5)
  gentle : AllGentle (wholeReader memory).window
  once : NeverAgain (wholeReader memory).window

theorem window_fair (within : getLength memory ≤ memory.length) :
    Fair (wholeReader memory).window := by
  intro positive
  have whole : lengthAt (wholeReader memory) = (wholeReader memory).size := by
    rw [lengthAt_whole, wholeReader_size]
  have left : 0 ≤ lengthAt (wholeReader memory) - 5 := positive
  have framed := wholeReader_fair within (by omega)
  exact framed.window (Int.le_of_eq whole) positive

theorem lmakeindex_eq (fuel : Nat) (held : 4 ≤ memory.length)
    (fits : FitsInt (getLength memory - 5)) :
    lmakeindex fuel memory =
      (indexElements fuel [] (wholeReader memory).window >>= fun made => .ok made.1) := by
  have start : (wholeReader memory).window =
      { memory := memory, ptr := 4, size := getLength memory - 5 } := by
    rw [Reader.window, lengthAt_whole]
    unfold wholeReader
    simp only [Int.zero_add]
  rw [lmakeindex, if_neg (Nat.not_lt.mpr held), intExpr_ok fits, start]
  rfl

theorem lmakeindex_settles_iff (fuel : Nat) (held : 4 ≤ memory.length)
    (within : getLength memory ≤ memory.length) (enough : memory.length < fuel) :
    Settles (lmakeindex fuel memory) ↔ IndexesSafely memory := by
  by_cases fits : FitsInt (getLength memory - 5)
  · rw [lmakeindex_eq fuel held fits, Settles.map,
      indexElements_settles_iff (window_fair within) enough]
    exact ⟨fun ⟨gentle, once⟩ => ⟨fits, gentle, once⟩, fun safely => ⟨safely.gentle, safely.once⟩⟩
  · refine iff_of_false (fun settles => ?_) fun safely => fits safely.fits
    have failed : lmakeindex fuel memory = .error .overflow := by
      rw [lmakeindex, if_neg (Nat.not_lt.mpr held), intExpr_overflow fits]
      rfl
    obtain ⟨message, same⟩ := settles _ failed
    cases same

/-- Both readers of a buffer return or raise exactly when the lengths in it lead
neither of them out of it and `lmakeindex` never back to an element. -/
theorem bson_readers_settle_iff (rt : Runtime) (memory : Bytes) (fuel : Nat)
    (held : 4 ≤ memory.length) (within : getLength memory ≤ memory.length)
    (enough : memory.length < fuel) :
    (Settles (ldecode rt fuel (some memory)) ∧ Settles (lmakeindex fuel memory)) ↔
      (DecodesSafely rt memory ∧ IndexesSafely memory) :=
  and_congr (ldecode_settles_iff rt fuel held within enough)
    (lmakeindex_settles_iff fuel held within enough)

end Whole

theorem settles_of_isOk {Result : Type} {x : Except Failure Result} (ok : x.isOk = true) :
    Settles x := by
  intro failure failed
  rw [failed] at ok
  cases ok

/-- A string under the key `a`, and a document with a boolean under the key `d`. -/
def nestedDocument : Bytes :=
  [27, 0, 0, 0, 2, 97, 0, 3, 0, 0, 0, 104, 105, 0, 3, 100, 0, 9, 0, 0, 0, 8, 98, 0, 1, 0, 0]

theorem nestedDocument_safely :
    DecodesSafely plainRuntime nestedDocument ∧ IndexesSafely nestedDocument :=
  (bson_readers_settle_iff plainRuntime nestedDocument 28 (by decide) (by decide)
    (by decide)).mp ⟨settles_of_isOk (by decide +kernel), settles_of_isOk (by decide +kernel)⟩

theorem error_of_map {Result : Type} {x : Except Failure Result} {failure : Failure}
    (failed : (x.map fun _ => ()) = .error failure) : x = .error failure := by
  cases x with
  | error other =>
      cases failed
      rfl
  | ok made => cases failed

theorem IndexStep.of_map {r t : Reader} (more : r.size ≠ 0)
    (passed : (indexElement r).map Prod.snd = .ok t) : IndexStep r t := by
  refine ⟨more, ?_⟩
  cases ran : indexElement r with
  | error failure =>
      rw [ran] at passed
      cases passed
  | ok made =>
      rw [ran] at passed
      cases passed
      exact ⟨made.1, rfl⟩

/-- A table with a code string under the key `a` whose length covers none of the text. -/
def codeTable (text : Bytes) : LuaValue :=
  .table none 0 [(.string [97], .string ([0, bsonJscode, 0, 0, 0, 0] ++ text))]

/-- What `codeTable` is encoded as for a text of six bytes. -/
def codeDocument (text : Bytes) : Bytes := [18, 0, 0, 0, 13, 97, 0, 0, 0, 0, 0] ++ text ++ [0]

/-- An empty string element whose length leads back to where it begins. -/
def loopText : Bytes := [2, 0, 0xfa, 0xff, 0xff, 0xff]

theorem loopDocument_endless (fuel : Nat) :
    lmakeindex fuel (codeDocument loopText) = .error .outOfFuel := by
  let inside : Reader := { memory := codeDocument loopText, ptr := 11, size := 6 }
  have first : IndexStep (wholeReader (codeDocument loopText)).window inside :=
    .of_map (by decide) (by decide +kernel)
  have again : IndexStep inside inside := .of_map (by decide) (by decide +kernel)
  obtain ⟨t, walked⟩ := Walk.endless (.single first) (.single again) fuel
  rw [lmakeindex_eq fuel (by decide) ⟨by decide, by decide⟩, indexElements_walk walked]
  rfl

/-- An embedded document of a negative length. -/
def wildText : Bytes := [3, 0, 0x18, 0xfc, 0xff, 0xff]

/-- Two encoded tables: one takes both readers out of the buffer, the other keeps
`lmakeindex` going for ever. -/
theorem code_leads_outside :
    (lencode plainRuntime (codeTable wildText) = .ok (codeDocument wildText) ∧
      getLength (codeDocument wildText) = (codeDocument wildText).length ∧
      ldecode plainRuntime 19 (some (codeDocument wildText)) = .error .outOfBounds ∧
      lmakeindex 19 (codeDocument wildText) = .error .outOfBounds) ∧
    (lencode plainRuntime (codeTable loopText) = .ok (codeDocument loopText) ∧
      getLength (codeDocument loopText) = (codeDocument loopText).length ∧
      ∀ fuel, lmakeindex fuel (codeDocument loopText) = .error .outOfFuel) :=
  ⟨⟨by decide +kernel, by decide, error_of_map (by decide +kernel),
      error_of_map (by decide +kernel)⟩,
    by decide +kernel, by decide, loopDocument_endless⟩

end CrossOver.Lua.Bson
