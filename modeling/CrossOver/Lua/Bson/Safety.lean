import CrossOver.Lua.Bson.Bounds
import CrossOver.Lua.Bson.Index

/-!
# Where `unpack_dict` leaves the document

`Tame` says that the length in front of one value does no harm.  `Goes` is one move
of the decoder, past an element or into an embedded document, so the elements it
meets are those it reaches by `Goes` from the start of the document.  Decoding ends
in a value or in a Lua error exactly when all of them are tame.
-/

namespace CrossOver.Lua.Bson

open CrossOver.Lib

/-- The length in front of a value, where there is one, keeps the decoder in bounds. -/
structure Tame (bt : UInt8) (r : Reader) : Prop where
  document : bt = bsonDocument ∨ bt = bsonArray → 1 ≤ r.ptr + lengthAt r
  binary : bt = bsonBinary → 5 ≤ r.size → r.size - 5 - lengthAt r < 2 ^ 31
  dbpointer : bt = bsonDbpointer →
    lengthAt r + 12 < 2 ^ 31 ∧ r.size - 4 - (lengthAt r + 12) < 2 ^ 31
  code : bt = bsonJscode ∨ bt = bsonSymbol → r.size - 4 - lengthAt r < 2 ^ 31
  codews : bt = bsonCodews → r.size - lengthAt r < 2 ^ 31

section Values

variable {fails : Failure → Prop} {r : Reader} {bt : UInt8}
  (nested : Bool → Decoder LuaValue)

theorem readValue_behaves (raises : ∀ message, fails (.luaError message)) (framed : Framed r)
    (fine : (4 ≤ r.size → Tame bt r) ∨ ∀ failure, fails failure)
    (inner : ∀ array, bt = bsonDocument ∨ bt = bsonArray →
      Behaves fails (nested array) (fun _ => Onward r) r) :
    Behaves fails (readValue nested bt) (fun _ => Onward r) r := by
  have stays : Onward r r := .refl framed
  have fits := lengthAt_fits r
  obtain ⟨lower, upper⟩ := fits
  unfold readValue
  refine .ite (fun _ => (readDouble_behaves raises framed).seq fun _ _ onward => onward) fun _ => ?_
  refine .ite (fun _ => ?_) fun _ => ?_
  · refine (readByte_behaves raises (.inl fun _ => framed)).seq ?_
    rintro value t ⟨rfl, enough, -⟩
    exact stays.move (by omega) enough
  refine .ite (fun _ => readString_behaves raises framed) fun _ => ?_
  refine .ite (fun document => inner false (.inl document)) fun _ => ?_
  refine .ite (fun array => inner true (.inr array)) fun _ => ?_
  refine .ite (fun binary => ?_) fun _ => ?_
  · refine readBinary_behaves raises framed fun enough => fine.imp_left fun tame => ?_
    exact (tame (by omega)).binary binary enough
  refine .ite (fun _ => readObjectid_behaves raises framed) fun _ => ?_
  refine .ite (fun _ => (readInt64_behaves raises framed).seq fun _ _ onward => onward) fun _ => ?_
  refine .ite (fun _ => stays) fun _ => ?_
  refine .ite (fun _ => readRegex_behaves raises framed) fun _ => ?_
  refine .ite (fun _ => ?_) fun _ => ?_
  · refine (readInt32_behaves raises framed).seq ?_
    rintro value t ⟨-, rfl, enough⟩
    exact stays.move (by omega) enough
  refine .ite (fun _ => readTimestamp_behaves raises framed) fun _ => ?_
  refine .ite (fun _ => (readInt64_behaves raises framed).seq fun _ _ onward => onward) fun _ => ?_
  refine .ite (fun dbpointer => ?_) fun _ => ?_
  · refine readRaw_behaves raises framed _ 12 fun enough => fine.imp_left fun tame => ?_
    obtain ⟨above, behind⟩ := (tame enough).dbpointer dbpointer
    exact ⟨⟨by omega, above⟩, behind⟩
  refine .ite (fun code => ?_) fun _ => ?_
  · refine readRaw_behaves raises framed _ 0 fun enough => fine.imp_left fun tame => ?_
    have behind := (tame enough).code code
    exact ⟨⟨by omega, by omega⟩, by omega⟩
  refine .ite (fun codews => ?_) fun _ => readError_behaves raises
  · refine readRaw_behaves raises framed _ (-4) fun enough => fine.imp_left fun tame => ?_
    have behind := (tame enough).codews codews
    exact ⟨⟨by omega, by omega⟩, by omega⟩

end Values

/-- The part of `unpack_dict` in front of the elements, with the reader for these. -/
def openDict : Decoder Reader := do
  let sz ← readInt32
  let inner ← intExpr (sz - 5)
  let ptr ← readBytes inner
  let last ← readByte
  if last ≠ 0 then readError "Invalid document end"
  else do
    let br ← get
    return { br with ptr := ptr, size := inner }

theorem unpackDict_eq (rt : Runtime) (fuel : Nat) (array : Bool) :
    unpackDict rt (fuel + 1) array = (do
      let t ← openDict
      let (entries, _) ← (readElements (unpackDict rt fuel) array fuel [] t :
        Except Failure (List Entry × Reader))
      return .table none (rt.rawlen entries) entries) := by
  simp only [unpackDict, openDict, bind_assoc]
  congr 1
  funext sz
  congr 1
  funext inner
  congr 1
  funext ptr
  congr 1
  funext last
  split <;> rfl

def Reader.window (r : Reader) : Reader := { r with ptr := r.ptr + 4, size := lengthAt r - 5 }

/-- Nothing is wrong with it unless nothing can be read from it. -/
def Fair (r : Reader) : Prop := 0 ≤ r.size → Framed r

theorem Framed.window {r : Reader} (framed : Framed r) (within : lengthAt r ≤ r.size) :
    Fair r.window := by
  obtain ⟨first, left, inside, narrow⟩ := framed
  intro positive
  refine ⟨?_, positive, ?_, ?_⟩
  all_goals
    simp only [Reader.window] at positive ⊢
    omega

section Nested

variable {fails : Failure → Prop} {r : Reader}

theorem openDict_behaves (raises : ∀ message, fails (.luaError message)) (framed : Framed r)
    (fine : (4 ≤ r.size → 1 ≤ r.ptr + lengthAt r) ∨ ∀ failure, fails failure) :
    Behaves fails openDict (fun t after => t = r.window ∧ after = r.move (lengthAt r) ∧
      lengthAt r ≤ r.size ∧ 4 ≤ r.size) r := by
  refine (readInt32_behaves raises framed).seq ?_
  rintro sz t ⟨length, rfl, head⟩
  have fits := lengthAt_fits r
  rw [Reader.window, ← length]
  rw [← length] at fine fits
  obtain ⟨lower, upper⟩ := fits
  have placed := framed
  obtain ⟨first, left, inside, narrow⟩ := framed
  refine (intExpr_behaves (fine.imp_left fun ahead => ?_)).seq ?_
  · have bound := ahead head
    exact ⟨by omega, by omega⟩
  rintro inner t ⟨rfl, rfl, -⟩
  refine (readBytes_behaves raises fun enough => fine.imp_left fun ahead => ?_).seq ?_
  · have bound := ahead head
    rw [Reader.move_size] at enough ⊢
    exact ⟨by omega, by omega⟩
  rintro ptr t ⟨rfl, rfl, enough⟩
  rw [Reader.move_size] at enough
  rw [Reader.move_move]
  refine (readByte_behaves raises (fine.imp_left fun ahead _ => placed.move ?_ ?_)).seq ?_
  · have bound := ahead head
    omega
  · omega
  rintro last t ⟨rfl, more, -⟩
  rw [Reader.move_size] at more
  refine .ite (fun _ => readError_behaves raises) fun _ => ?_
  rw [behaves_bind, behaves_get, behaves_pure, Reader.move_move]
  refine ⟨rfl, ?_, by omega, head⟩
  congr 1
  omega

theorem readElements_left (nested : Bool → Decoder LuaValue) (array : Bool) (steps : Nat)
    (entries : List Entry) :
    Behaves (fun _ => True) (readElements nested array steps entries)
      (fun _ _ => 0 ≤ r.size) r := by
  cases steps with
  | zero => exact behaves_throw.mpr trivial
  | succ steps =>
      unfold readElements
      rw [behaves_bind, behaves_get]
      refine .ite (fun empty => behaves_pure.mpr (Int.le_of_eq empty.symm)) fun _ => ?_
      unfold readElement
      rw [bind_assoc]
      refine (readByte_behaves (fun _ => trivial) (.inr fun _ => trivial)).seq ?_
      rintro bt t ⟨-, enough, -⟩
      unfold Behaves
      split
      · omega
      · trivial

theorem unpackDict_behaves (raises : ∀ message, fails (.luaError message)) (framed : Framed r)
    (fine : (4 ≤ r.size → 1 ≤ r.ptr + lengthAt r) ∨ ∀ failure, fails failure)
    (rt : Runtime) (fuel : Nat) (array : Bool)
    (elements : ∀ after, openDict r = .ok (r.window, after) →
      Behaves fails (readElements (unpackDict rt fuel) array fuel []) (fun _ _ => True) r.window) :
    Behaves fails (unpackDict rt (fuel + 1) array) (fun _ => Onward r) r := by
  rw [unpackDict_eq]
  refine (openDict_behaves raises framed fine).ran.seq ?_
  rintro t after ⟨⟨rfl, rfl, within, -⟩, opened⟩
  have inner := elements _ opened
  have positive := readElements_left (r := r.window) (unpackDict rt fuel) array fuel []
  unfold Behaves
  cases ran : readElements (unpackDict rt fuel) array fuel [] r.window with
  | error failure => exact inner.failed ran
  | ok made =>
      have left : 0 ≤ lengthAt r - 5 := positive.returned ran
      exact ⟨lengthAt r, by omega, within, rfl⟩

/-- An embedded document that is read leaves the reader behind itself. -/
theorem unpackDict_onward (framed : Framed r) (rt : Runtime) (fuel : Nat) (array : Bool) :
    Behaves (fun _ => True) (unpackDict rt fuel array) (fun _ => Onward r) r := by
  cases fuel with
  | zero => exact behaves_throw.mpr trivial
  | succ fuel =>
      refine unpackDict_behaves (fun _ => trivial) framed (.inr fun _ => trivial) rt fuel array ?_
      intro after opened
      unfold Behaves
      split <;> trivial

end Nested

/-- The type and the name of an element. -/
def readHead : Decoder (UInt8 × Bytes) := do
  let bt ← readByte
  let key ← readCstring
  return (bt, key)

theorem readElement_eq (nested : Bool → Decoder LuaValue) (array : Bool) :
    readElement nested array = (do
      let head ← readHead
      let value ← readValue nested head.1
      return (elementKey array head.2, value)) := by
  simp only [readElement, readHead, bind_assoc, pure_bind]

/-- An element of a type begins at the reader, and its value at the other one. -/
def Heads (r : Reader) (bt : UInt8) (s : Reader) : Prop :=
  r.size ≠ 0 ∧ ∃ key, readHead r = .ok ((bt, key), s)

theorem readHead_behaves {fails : Failure → Prop} {r : Reader}
    (raises : ∀ message, fails (.luaError message)) (fair : Fair r) :
    Behaves fails readHead (fun _ s => Framed r ∧ Onward r s ∧ s.size + 2 ≤ r.size) r := by
  refine (readByte_behaves raises (.inl fun some => fair (by omega))).seq ?_
  rintro bt t ⟨rfl, more, first⟩
  have framed := fair (by omega)
  have behind : Framed (r.move 1) := framed.move (by omega) more
  refine (readCstring_behaves raises behind).seq ?_
  rintro key t ⟨moved, forward, enough, rfl⟩
  rw [Reader.move_size] at enough
  rw [Reader.move_move]
  refine ⟨framed, ⟨1 + moved, by omega, by omega, rfl⟩, ?_⟩
  rw [Reader.move_size]
  omega

theorem Heads.onward {r s : Reader} {bt : UInt8} (heads : Heads r bt s) (fair : Fair r) :
    Framed s ∧ Onward r s ∧ s.size + 2 ≤ r.size := by
  obtain ⟨-, key, read⟩ := heads
  have behaves : Behaves (fun _ => True) readHead _ r := readHead_behaves (fun _ => trivial) fair
  obtain ⟨framed, onward, shorter⟩ := behaves.returned read
  exact ⟨onward.framed framed, onward, shorter⟩

/-- One move of `unpack_dict`: past an element, or into the document that it holds. -/
inductive Goes (rt : Runtime) (r : Reader) : Reader → Prop where
  | past {bt : UInt8} {s t : Reader} {fuel : Nat} {value : LuaValue} (heads : Heads r bt s)
      (read : readValue (unpackDict rt fuel) bt s = .ok (value, t)) : Goes rt r t
  | into {bt : UInt8} {s t after : Reader} (heads : Heads r bt s)
      (document : bt = bsonDocument ∨ bt = bsonArray)
      (opened : openDict s = .ok (t, after)) : Goes rt r t

/-- All lengths met from here on are harmless. -/
def Sound (rt : Runtime) (r : Reader) : Prop :=
  ∀ t bt s, Relation.ReflTransGen (Goes rt) r t → Heads t bt s → 4 ≤ s.size → Tame bt s

theorem Sound.goes {rt : Runtime} {r t : Reader} (sound : Sound rt r) (goes : Goes rt r t) :
    Sound rt t := fun u bt s reached => sound u bt s (.head goes reached)

theorem Goes.fair {rt : Runtime} {r t : Reader} (goes : Goes rt r t) (fair : Fair r) : Fair t := by
  cases goes with
  | @past bt s _ fuel value heads read =>
      obtain ⟨framed, onward, shorter⟩ := heads.onward fair
      have behaves : Behaves (fun _ => True) (readValue (unpackDict rt fuel) bt) _ s :=
        readValue_behaves _ (fun _ => trivial) framed (.inr fun _ => trivial)
          fun array _ => unpackDict_onward framed rt fuel array
      exact fun _ => (behaves.returned read).framed framed
  | into heads document opened =>
      obtain ⟨framed, onward, shorter⟩ := heads.onward fair
      have behaves : Behaves (fun _ => True) openDict _ _ :=
        openDict_behaves (fun _ => trivial) framed (.inr fun _ => trivial)
      obtain ⟨rfl, -, within, -⟩ := behaves.returned opened
      exact framed.window within

section Decoding

variable {rt : Runtime} {fuel : Nat}

theorem readElements_settles
    (nested : ∀ array s, Framed s → s.size < fuel →
      (4 ≤ s.size → 1 ≤ s.ptr + lengthAt s) →
      (∀ after, openDict s = .ok (s.window, after) → Sound rt s.window) →
      Behaves IsLuaError (unpackDict rt fuel array) (fun _ => Onward s) s)
    (array : Bool) (steps : Nat) (entries : List Entry) (r : Reader) (fair : Fair r)
    (some : 0 < steps) (enough : r.size < steps) (small : r.size ≤ fuel) (sound : Sound rt r) :
    Behaves IsLuaError (readElements (unpackDict rt fuel) array steps entries)
      (fun _ _ => True) r := by
  have raises : ∀ message, IsLuaError (.luaError message) := fun message => ⟨message, rfl⟩
  induction steps generalizing entries r with
  | zero => exact absurd some (Nat.lt_irrefl 0)
  | succ steps inductionHypothesis =>
      unfold readElements
      rw [behaves_bind, behaves_get]
      refine .ite (fun _ => behaves_pure.mpr trivial) fun more => ?_
      rw [readElement_eq]
      simp only [bind_assoc, pure_bind]
      refine (readHead_behaves raises fair).ran.seq ?_
      rintro ⟨bt, key⟩ s ⟨⟨framed, onward, shorter⟩, read⟩
      have heads : Heads r bt s := ⟨more, key, read⟩
      have behind := onward.framed framed
      have tame := sound r bt s .refl heads
      have value := readValue_behaves (unpackDict rt fuel) raises behind (.inl tame)
        fun array document => nested array s behind (by omega)
          (fun head => (tame head).document document)
          fun after opened => sound.goes (.into heads document opened)
      refine value.ran.seq ?_
      rintro made t ⟨further, passed⟩
      have later := further.framed behind
      have left := later.left
      have less := further.size_le
      push_cast at enough
      exact inductionHypothesis _ t (fun _ => later) (by omega) (by omega) (by omega)
        (sound.goes (.past heads passed))

/-- Every level of nesting is smaller than the one around it. -/
theorem unpackDict_settles (rt : Runtime) (fuel : Nat) (array : Bool) (s : Reader)
    (framed : Framed s) (small : s.size < fuel)
    (ahead : 4 ≤ s.size → 1 ≤ s.ptr + lengthAt s)
    (sound : ∀ after, openDict s = .ok (s.window, after) → Sound rt s.window) :
    Behaves IsLuaError (unpackDict rt fuel array) (fun _ => Onward s) s := by
  induction fuel generalizing array s with
  | zero =>
      have left := framed.left
      omega
  | succ fuel inductionHypothesis =>
      refine unpackDict_behaves (fun message => ⟨message, rfl⟩) framed (.inl ahead) rt fuel array ?_
      intro after opened
      have behaves : Behaves (fun _ => True) openDict _ _ :=
        openDict_behaves (fun _ => trivial) framed (.inr fun _ => trivial)
      obtain ⟨-, -, within, head⟩ := behaves.returned opened
      have less : s.window.size + 5 ≤ s.size := by
        simp only [Reader.window]
        omega
      push_cast at small
      exact readElements_settles inductionHypothesis array fuel [] s.window (framed.window within)
        (by omega) (by omega) (by omega) (sound after opened)

end Decoding

section Leaving

variable {First Second : Type}

theorem Settles.first {x : Decoder First} {f : First → Decoder Second} {r : Reader}
    (settles : Settles ((x >>= f) r)) : Settles (x r) := by
  intro failure failed
  refine settles failure ?_
  change (x r >>= fun made => f made.1 made.2) = _
  rw [failed]
  rfl

theorem Settles.rest {x : Decoder First} {f : First → Decoder Second} {r t : Reader}
    {value : First} (settles : Settles ((x >>= f) r)) (ran : x r = .ok (value, t)) :
    Settles (f value t) := by
  change Settles (x r >>= fun made => f made.1 made.2) at settles
  rwa [ran] at settles

theorem Settles.fits {value : Int} {r : Reader} (settles : Settles (intExpr value r)) :
    FitsInt value := by
  by_contra wide
  obtain ⟨message, same⟩ := settles _ (intExpr_overflow wide)
  cases same

theorem Settles.moves {sz : Int} {r : Reader} (settles : Settles (readBytes sz r))
    (enough : sz ≤ r.size) : FitsInt (r.size - sz) := by
  have asked : Settles ((do
      checkReader sz
      advance sz
      return r.ptr : Decoder Int) r) := settles.rest rfl
  have moved : Settles ((do
      advance sz
      return r.ptr : Decoder Int) r) := asked.rest (checkReader_ok enough)
  have counted : Settles ((intExpr (r.size - sz) >>= fun size =>
      set ({ r with ptr := r.ptr + sz, size := size } : Reader) : Decoder PUnit) r) :=
    moved.first.rest rfl
  exact counted.first.fits

theorem readByte_outside {r : Reader} (before : r.ptr < 0) (some : 1 ≤ r.size) :
    ¬ Settles (readByte r) := by
  intro settles
  have looked : Settles ((do
      let br ← get
      let bytes ← bytesAt br.ptr 1
      advance 1
      return leValue bytes : Decoder Nat) r) := settles.first.rest (checkReader_ok some)
  have read : Settles (bytesAt r.ptr 1 r) := Settles.first (looked.rest rfl)
  have outside : bytesAt r.ptr 1 r = .error .outOfBounds := by
    change (if 0 ≤ r.ptr ∧ r.ptr + (1 : Nat) ≤ r.memory.length then _ else _ : Decoder Bytes) r = _
    rw [if_neg (by omega)]
    rfl
  obtain ⟨message, same⟩ := read _ outside
  cases same

/-- The last byte of the document lies in front of the memory. -/
theorem openDict_ahead {r : Reader} (framed : Framed r) (head : 4 ≤ r.size)
    (settles : Settles (openDict r)) : 1 ≤ r.ptr + lengthAt r := by
  have counted := settles.rest (readInt32_ok framed head)
  obtain ⟨first, left, inside, narrow⟩ := framed
  by_contra low
  have asked := counted.rest (intExpr_ok counted.first.fits)
  have enough : lengthAt r - 5 ≤ (r.move 4).size := by
    rw [Reader.move_size]
    omega
  have fits := asked.first.moves enough
  have closed := asked.rest (readBytes_moves enough fits)
  refine readByte_outside ?_ ?_ closed.first
  · simp only [Reader.move_ptr]
    omega
  · simp only [Reader.move_size]
    omega

theorem readRaw_moves {type : UInt8} {behind whole : Int} {r : Reader} (framed : Framed r)
    (head : 4 ≤ r.size) (settles : Settles (readRaw type behind whole r)) :
    FitsInt (lengthAt r + behind) ∧
      (lengthAt r + behind ≤ r.size - 4 → FitsInt (r.size - 4 - (lengthAt r + behind))) := by
  have asked := Settles.rest (settles.rest rfl) (readInt32_ok framed head)
  have fits := asked.first.fits
  exact ⟨fits, (asked.rest (intExpr_ok fits)).first.moves⟩

theorem readBinary_moves {r : Reader} (framed : Framed r) (head : 5 ≤ r.size)
    (settles : Settles (readBinary r)) (enough : lengthAt r ≤ r.size - 5) :
    FitsInt (r.size - 5 - lengthAt r) := by
  have first := framed.first
  have behind : Framed (r.move 4) := framed.move (by omega) (by omega)
  have typed := settles.rest (readInt32_ok framed (by omega))
  have asked := typed.rest (readByte_ok behind (by rw [Reader.move_size]; omega))
  rw [Reader.move_move] at asked
  exact asked.first.moves enough

/-- An embedded document settles only if its last byte lies in the memory. -/
theorem unpackDict_ahead {rt : Runtime} {fuel : Nat} {array : Bool} {r : Reader}
    (framed : Framed r) (head : 4 ≤ r.size) (settles : Settles (unpackDict rt fuel array r)) :
    1 ≤ r.ptr + lengthAt r := by
  cases fuel with
  | zero =>
      obtain ⟨message, same⟩ := settles _ rfl
      cases same
  | succ fuel =>
      rw [unpackDict_eq] at settles
      exact openDict_ahead framed head settles.first

theorem tame_of_settles {rt : Runtime} {fuel : Nat} {bt : UInt8} {r : Reader}
    (framed : Framed r) (head : 4 ≤ r.size)
    (settles : Settles (readValue (unpackDict rt fuel) bt r)) : Tame bt r where
  document := by
    rintro (rfl | rfl)
    · exact unpackDict_ahead framed head settles
    · exact unpackDict_ahead framed head settles
  binary := by
    rintro rfl more
    have moves := readBinary_moves framed more settles
    by_contra wide
    have fits := moves (by omega)
    exact wide fits.2
  dbpointer := by
    rintro rfl
    obtain ⟨fits, moves⟩ := readRaw_moves framed head settles
    refine ⟨fits.2, ?_⟩
    by_contra wide
    exact wide (moves (by omega)).2
  code := by
    rintro (rfl | rfl)
    all_goals
      obtain ⟨fits, moves⟩ := readRaw_moves framed head settles
      rw [Int.add_zero] at moves
      by_contra wide
      exact wide (moves (by omega)).2
  codews := by
    rintro rfl
    obtain ⟨fits, moves⟩ := readRaw_moves framed head settles
    by_contra wide
    have bound := (moves (by omega)).2
    omega

end Leaving

section Fuel

variable {nested longer : Bool → Decoder LuaValue}

theorem readValue_outlasts (inner : ∀ array, Outlasts .outOfFuel (longer array) (nested array))
    (bt : UInt8) : Outlasts .outOfFuel (readValue longer bt) (readValue nested bt) := by
  by_cases document : bt = bsonDocument
  · subst document
    exact inner false
  by_cases array : bt = bsonArray
  · subst array
    exact inner true
  have same : readValue longer bt = readValue nested bt := by
    simp only [readValue, if_neg document, if_neg array]
  rw [same]
  exact .refl _

theorem readElements_outlasts
    (inner : ∀ array, Outlasts .outOfFuel (longer array) (nested array)) (array : Bool)
    (steps : Nat) (entries : List Entry) :
    Outlasts .outOfFuel (readElements longer array (steps + 1) entries)
      (readElements nested array steps entries) := by
  induction steps generalizing entries with
  | zero => exact outlasts_throw _
  | succ steps inductionHypothesis =>
      rw [readElements, readElements.eq_2 nested]
      refine (Outlasts.refl _).bind fun t => ?_
      split
      · exact .refl _
      · simp only [readElement_eq, bind_assoc, pure_bind]
        refine (Outlasts.refl _).bind fun head => ?_
        exact (readValue_outlasts inner head.1).bind fun value => inductionHypothesis _

theorem unpackDict_outlasts (rt : Runtime) (fuel : Nat) (array : Bool) :
    Outlasts .outOfFuel (unpackDict rt (fuel + 1) array) (unpackDict rt fuel array) := by
  induction fuel generalizing array with
  | zero => exact outlasts_throw _
  | succ fuel inductionHypothesis =>
      rw [unpackDict_eq rt (fuel + 1), unpackDict_eq rt fuel]
      refine (Outlasts.refl _).bind fun t => ?_
      refine Outlasts.bind ?_ fun made => .refl _
      intro s ended
      have other : readElements (unpackDict rt fuel) array fuel [] t ≠ .error .outOfFuel := by
        intro same
        refine ended ?_
        change (readElements (unpackDict rt fuel) array fuel [] t >>= fun made =>
          Except.ok (made, s)) = _
        rw [same]
        rfl
      have same := readElements_outlasts inductionHypothesis array fuel [] t other
      change (readElements (unpackDict rt (fuel + 1)) array (fuel + 1) [] t >>= fun made =>
        Except.ok (made, s)) = _
      rw [same]
      rfl

theorem unpackDict_fuel (rt : Runtime) (fuel more : Nat) (array : Bool) :
    Outlasts .outOfFuel (unpackDict rt (fuel + more) array) (unpackDict rt fuel array) := by
  induction more with
  | zero => exact .refl _
  | succ more inductionHypothesis =>
      exact (unpackDict_outlasts rt (fuel + more) array).trans inductionHypothesis

theorem readValue_same {rt : Runtime} {enough : Nat} {bt : UInt8} {r t : Reader}
    {value : LuaValue} (read : readValue (unpackDict rt enough) bt r = .ok (value, t))
    (fuel : Nat) :
    readValue (unpackDict rt fuel) bt r = .ok (value, t) ∨
      readValue (unpackDict rt fuel) bt r = .error .outOfFuel := by
  rcases Nat.le_total enough fuel with above | below
  · obtain ⟨more, rfl⟩ := Nat.exists_eq_add_of_le above
    have same := readValue_outlasts (unpackDict_fuel rt enough more) bt r
    rw [read] at same
    exact .inl (same fun absurdity => nomatch absurdity)
  · obtain ⟨more, rfl⟩ := Nat.exists_eq_add_of_le below
    have same := readValue_outlasts (unpackDict_fuel rt fuel more) bt r
    rw [read] at same
    by_cases ended : readValue (unpackDict rt fuel) bt r = .error .outOfFuel
    · exact .inr ended
    · exact .inl (same ended).symm

end Fuel

theorem not_settles_outOfFuel {Result : Type} {x : Except Failure Result}
    (failed : x = .error .outOfFuel) : ¬ Settles x := by
  intro settles
  obtain ⟨message, same⟩ := settles _ failed
  cases same

section Unsettled

variable {rt : Runtime} {r t s : Reader} {bt : UInt8}

theorem Settles.element {nested : Bool → Decoder LuaValue} {array : Bool} {steps : Nat}
    {entries : List Entry} (settles : Settles (readElements nested array (steps + 1) entries r))
    (heads : Heads r bt s) : ∃ key, Settles ((do
      let value ← readValue nested bt
      readElements nested array steps (setSlot entries (elementKey array key) value) :
        Decoder (List Entry)) s) := by
  obtain ⟨more, key, read⟩ := heads
  refine ⟨key, ?_⟩
  have turn : Settles ((if r.size = 0 then pure entries else do
      let element ← readElement nested array
      readElements nested array steps (setSlot entries element.1 element.2) :
        Decoder (List Entry)) r) := settles.rest rfl
  rw [if_neg more, readElement_eq] at turn
  simp only [bind_assoc, pure_bind] at turn
  exact turn.rest read

theorem unpackDict_elements {fuel : Nat} {array : Bool} (opened : openDict r = .ok (t, s))
    (settles : Settles (unpackDict rt (fuel + 1) array r)) :
    Settles (readElements (unpackDict rt fuel) array fuel [] t) := by
  rw [unpackDict_eq] at settles
  have rest := (settles.rest opened).first
  intro failure failed
  refine rest failure ?_
  change (readElements (unpackDict rt fuel) array fuel [] t >>= fun made =>
    Except.ok (made, s)) = _
  rw [failed]
  rfl

theorem readValue_nested (nested : Bool → Decoder LuaValue)
    (document : bt = bsonDocument ∨ bt = bsonArray) :
    ∃ array, readValue nested bt = nested array := by
  rcases document with rfl | rfl
  · exact ⟨false, rfl⟩
  · exact ⟨true, rfl⟩

/-- Where a length that is met does harm, no fuel makes decoding settle. -/
theorem readElements_unsettled (reached : Relation.ReflTransGen (Goes rt) r t)
    (heads : Heads t bt s) (head : 4 ≤ s.size) (wild : ¬ Tame bt s) (fair : Fair r) (fuel : Nat)
    (array : Bool) (steps : Nat) (entries : List Entry) :
    ¬ Settles (readElements (unpackDict rt fuel) array steps entries r) := by
  intro settles
  induction reached using Relation.ReflTransGen.head_induction_on generalizing fuel array steps
    entries with
  | refl =>
      cases steps with
      | zero => exact not_settles_outOfFuel rfl settles
      | succ steps =>
          obtain ⟨key, value⟩ := settles.element heads
          exact wild (tame_of_settles (heads.onward fair).1 head value.first)
  | head goes _ inductionHypothesis =>
      have later := goes.fair fair
      cases steps with
      | zero => exact not_settles_outOfFuel rfl settles
      | succ steps =>
          cases goes with
          | past first read =>
              obtain ⟨key, value⟩ := settles.element first
              rcases readValue_same read fuel with passed | ended
              · exact inductionHypothesis later fuel array steps _ (value.rest passed)
              · exact not_settles_outOfFuel ended value.first
          | into first document opened =>
              obtain ⟨key, value⟩ := settles.element first
              obtain ⟨kind, same⟩ := readValue_nested (unpackDict rt fuel) document
              rw [same] at value
              cases fuel with
              | zero => exact not_settles_outOfFuel rfl value.first
              | succ fuel =>
                  exact inductionHypothesis later fuel kind fuel []
                    (unpackDict_elements opened value.first)

end Unsettled

section Whole

variable {memory : Bytes}

def wholeReader (memory : Bytes) : Reader :=
  { memory := memory, ptr := 0, size := getLength memory }

theorem wholeReader_size : (wholeReader memory).size = getLength memory := by
  simp only [wholeReader]

theorem lengthAt_whole : lengthAt (wholeReader memory) = getLength memory := by
  unfold lengthAt wordAt wholeReader getLength
  rw [Int.toNat_zero, List.drop_zero]

theorem wholeReader_fair (within : getLength memory ≤ memory.length) :
    Fair (wholeReader memory) := by
  have fits := (lengthAt_fits (wholeReader memory)).2
  rw [lengthAt_whole] at fits
  intro positive
  refine ⟨Int.le_refl _, positive, ?_, ?_⟩
  all_goals
    unfold wholeReader
    generalize getLength memory = size at *
    dsimp only
    omega

def DecodesSafely (rt : Runtime) (memory : Bytes) : Prop :=
  ∀ after, openDict (wholeReader memory) = .ok ((wholeReader memory).window, after) →
    Sound rt (wholeReader memory).window

theorem ldecode_eq (rt : Runtime) (fuel : Nat) (held : 4 ≤ memory.length) :
    ldecode rt fuel (some memory) =
      (unpackDict rt fuel false (wholeReader memory) >>= fun made => .ok (some made.1)) := by
  rw [ldecode, if_neg (Nat.not_lt.mpr held)]
  rfl

theorem Settles.map {First Second : Type} {x : Except Failure First} {f : First → Second} :
    Settles (x >>= fun made => .ok (f made)) ↔ Settles x := by
  cases x with
  | error failure =>
      constructor
      all_goals
        intro settles other failed
        cases failed
        exact settles _ rfl
  | ok made =>
      constructor
      · intro _ failure failed
        cases failed
      · intro _ failure failed
        cases failed

theorem openDict_short {r : Reader} (short : r.size < 4) :
    Behaves IsLuaError openDict (fun _ _ => False) r := by
  have length : Behaves IsLuaError readInt32 (fun _ _ => False) r := by
    refine (readWord_behaves (fun message => ⟨message, rfl⟩) 4
      (.inl fun enough => absurd enough (by omega))).seq ?_
    rintro value t ⟨-, -, enough, -⟩
    omega
  exact length.seq fun _ _ absurdity => absurdity.elim

theorem unpackDict_settles_iff {rt : Runtime} {fuel : Nat} {array : Bool} {r : Reader}
    (fair : Fair r) (whole : lengthAt r = r.size) (enough : r.size < fuel + 1) :
    Settles (unpackDict rt (fuel + 1) array r) ↔
      ∀ after, openDict r = .ok (r.window, after) → Sound rt r.window := by
  by_cases short : r.size < 4
  · have fails := openDict_short short
    constructor
    · intro _ after opened
      exact (fails.returned opened).elim
    · intro _ failure failed
      have rest : Behaves IsLuaError (unpackDict rt (fuel + 1) array) (fun _ _ => False) r := by
        rw [unpackDict_eq]
        exact fails.seq fun _ _ absurdity => absurdity.elim
      exact rest.failed failed
  · have framed := fair (by omega)
    have first := framed.first
    constructor
    · intro settles after opened t bt s reached heads head
      by_contra wild
      exact readElements_unsettled reached heads head wild
        (framed.window (Int.le_of_eq whole)) fuel array fuel []
        (unpackDict_elements opened settles)
    · intro safely failure failed
      exact (unpackDict_settles rt (fuel + 1) array r framed (by exact_mod_cast enough)
        (fun head => by omega) safely).failed failed

theorem ldecode_settles_iff (rt : Runtime) (fuel : Nat) (held : 4 ≤ memory.length)
    (within : getLength memory ≤ memory.length) (enough : memory.length < fuel) :
    Settles (ldecode rt fuel (some memory)) ↔ DecodesSafely rt memory := by
  obtain ⟨fuel, rfl⟩ : ∃ f, fuel = f + 1 := ⟨fuel - 1, by omega⟩
  rw [ldecode_eq rt _ held, Settles.map]
  refine unpackDict_settles_iff (wholeReader_fair within) ?_ ?_
  · rw [lengthAt_whole, wholeReader_size]
  · rw [wholeReader_size]
    omega

end Whole

end CrossOver.Lua.Bson
