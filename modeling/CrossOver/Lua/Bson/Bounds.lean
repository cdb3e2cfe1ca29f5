import CrossOver.Lib.Behaves
import CrossOver.Lib.Fuel
import CrossOver.Lua.Bson.Unpacking

/-!
# How far the readers go

`Framed` is the invariant of a reader: what it may still read lies in the memory.
Every read keeps it as long as the lengths in the document do not move the reader
back in front of the memory or out of the type `int`.

The rules take the failures that are allowed as a parameter.  With the Lua errors
alone they say that a value is read safely; with all failures allowed they only say
where a reader stands after it.
-/

namespace CrossOver.Lua.Bson

open CrossOver.Lib

def FitsInt (value : Int) : Prop := -2 ^ 31 ≤ value ∧ value < 2 ^ 31

def IsLuaError (failure : Failure) : Prop := ∃ message, failure = .luaError message

/-- It returns or ends in a Lua error. -/
def Settles {Result : Type} (x : Except Failure Result) : Prop :=
  ∀ failure, x = .error failure → IsLuaError failure

def Reader.move (r : Reader) (moved : Int) : Reader :=
  { r with ptr := r.ptr + moved, size := r.size - moved }

@[simp]
theorem Reader.move_memory (r : Reader) (moved : Int) : (r.move moved).memory = r.memory := rfl

@[simp]
theorem Reader.move_ptr (r : Reader) (moved : Int) : (r.move moved).ptr = r.ptr + moved := rfl

@[simp]
theorem Reader.move_size (r : Reader) (moved : Int) : (r.move moved).size = r.size - moved := rfl

theorem Reader.move_move (r : Reader) (first second : Int) :
    (r.move first).move second = r.move (first + second) := by
  simp only [Reader.move, Reader.mk.injEq, true_and]
  omega

structure Framed (r : Reader) : Prop where
  first : 0 ≤ r.ptr
  left : 0 ≤ r.size
  inside : r.ptr + r.size ≤ r.memory.length
  narrow : r.ptr + r.size < 2 ^ 31

theorem Framed.move {r : Reader} (framed : Framed r) {moved : Int} (first : 0 ≤ r.ptr + moved)
    (enough : moved ≤ r.size) : Framed (r.move moved) := by
  obtain ⟨_, _, inside, narrow⟩ := framed
  refine ⟨first, ?_, ?_, ?_⟩
  all_goals
    simp only [Reader.move_ptr, Reader.move_size, Reader.move_memory]
    omega

/-- The reader has gone on by some of the bytes it might read. -/
def Onward (r t : Reader) : Prop := ∃ moved : Int, 0 ≤ moved ∧ moved ≤ r.size ∧ t = r.move moved

theorem Onward.refl {r : Reader} (framed : Framed r) : Onward r r :=
  ⟨0, Int.le_refl _, framed.left, by simp [Reader.move]⟩

theorem Onward.move {r t : Reader} (onward : Onward r t) {moved : Int} (forward : 0 ≤ moved)
    (enough : moved ≤ t.size) : Onward r (t.move moved) := by
  obtain ⟨first, _, _, rfl⟩ := onward
  rw [Reader.move_size] at enough
  exact ⟨first + moved, by omega, by omega, Reader.move_move r first moved⟩

theorem Onward.trans {r s t : Reader} (first : Onward r s) (second : Onward s t) : Onward r t := by
  obtain ⟨moved, forward, enough, rfl⟩ := second
  exact first.move forward enough

theorem Onward.framed {r t : Reader} (framed : Framed r) (onward : Onward r t) : Framed t := by
  obtain ⟨moved, forward, enough, rfl⟩ := onward
  have first := framed.first
  exact framed.move (by omega) enough

theorem Onward.size_le {r t : Reader} (onward : Onward r t) : t.size ≤ r.size := by
  obtain ⟨moved, forward, _, rfl⟩ := onward
  rw [Reader.move_size]
  omega

def wordAt (r : Reader) (width : Nat) : Nat := leValue ((r.memory.drop r.ptr.toNat).take width)

def lengthAt (r : Reader) : Int := signed 4 (wordAt r 4)

theorem lengthAt_fits (r : Reader) : FitsInt (lengthAt r) := by
  have modulus : (256 : Nat) ^ 4 = 2 ^ 32 := by decide
  simp only [lengthAt, signed, FitsInt, modulus]
  generalize ((wordAt r 4 : Nat) : Int) = word
  simp only [Int.bmod]
  split <;> omega

section Primitives

variable {r : Reader}

theorem intExpr_ok {value : Int} (fits : FitsInt value) : intExpr value r = .ok (value, r) := by
  unfold FitsInt at fits
  rw [intExpr, if_pos fits]
  rfl

theorem intExpr_overflow {value : Int} (wide : ¬ FitsInt value) :
    intExpr value r = .error .overflow := by
  unfold FitsInt at wide
  rw [intExpr, if_neg wide]
  rfl

theorem advance_moves {sz : Int} (fits : FitsInt (r.size - sz)) :
    advance sz r = .ok ((), r.move sz) := by
  change (intExpr (r.size - sz) r >>= fun size =>
    Except.ok ((), ({ r with ptr := r.ptr + sz, size := size.1 } : Reader))) = _
  rw [intExpr_ok fits]
  rfl

theorem readBytes_moves {sz : Int} (enough : sz ≤ r.size) (fits : FitsInt (r.size - sz)) :
    readBytes sz r = .ok (r.ptr, r.move sz) := by
  change (checkReader sz r >>= fun checked =>
    advance sz checked.2 >>= fun moved => Except.ok (r.ptr, moved.2)) = _
  rw [checkReader_ok enough]
  change (advance sz r >>= fun moved => Except.ok (r.ptr, moved.2)) = _
  rw [advance_moves fits]
  rfl

theorem readWord_ok (framed : Framed r) {width : Nat} (enough : width ≤ r.size) :
    readWord width r = .ok (wordAt r width, r.move width) := by
  obtain ⟨first, _, inside, narrow⟩ := framed
  have held : 0 ≤ r.ptr ∧ r.ptr + width ≤ r.memory.length := by omega
  change (checkReader width r >>= fun checked =>
    (if 0 ≤ checked.2.ptr ∧ checked.2.ptr + width ≤ checked.2.memory.length
      then pure ((checked.2.memory.drop checked.2.ptr.toNat).take width)
      else throw .outOfBounds : Decoder Bytes) checked.2 >>= fun bytes =>
    advance width bytes.2 >>= fun moved => Except.ok (leValue bytes.1, moved.2)) = _
  rw [checkReader_ok enough]
  change ((if 0 ≤ r.ptr ∧ r.ptr + width ≤ r.memory.length
      then pure ((r.memory.drop r.ptr.toNat).take width)
      else throw .outOfBounds : Decoder Bytes) r >>= fun bytes =>
    advance width bytes.2 >>= fun moved => Except.ok (leValue bytes.1, moved.2)) = _
  rw [if_pos held]
  change (advance width r >>= fun moved => Except.ok (wordAt r width, moved.2)) = _
  rw [advance_moves ⟨by omega, by omega⟩]
  rfl

theorem readInt32_ok (framed : Framed r) (enough : 4 ≤ r.size) :
    readInt32 r = .ok (lengthAt r, r.move 4) := by
  change (readWord 4 r >>= fun read => Except.ok (signed 4 read.1, read.2)) = _
  rw [readWord_ok framed enough]
  rfl

theorem readByte_ok (framed : Framed r) (enough : 1 ≤ r.size) :
    readByte r = .ok (UInt8.ofNat (wordAt r 1), r.move 1) := by
  change (readWord 1 r >>= fun read => Except.ok (UInt8.ofNat read.1, read.2)) = _
  rw [readWord_ok framed enough]
  rfl

end Primitives

section Rules

variable {fails : Failure → Prop} {r : Reader}

theorem readError_behaves (raises : ∀ message, fails (.luaError message)) {Result : Type}
    {message : String} {post : Result → Reader → Prop} :
    Behaves fails (readError message) post r := raises message

theorem intExpr_behaves {value : Int} (fine : FitsInt value ∨ ∀ failure, fails failure) :
    Behaves fails (intExpr value) (fun made t => made = value ∧ t = r ∧ FitsInt value) r := by
  unfold Behaves
  by_cases fits : FitsInt value
  · rw [intExpr_ok fits]
    exact ⟨rfl, rfl, fits⟩
  · rw [intExpr_overflow fits]
    exact fine.resolve_left fits _

theorem checkReader_behaves (raises : ∀ message, fails (.luaError message)) (sz : Int) :
    Behaves fails (checkReader sz) (fun _ t => t = r ∧ sz ≤ r.size) r := by
  refine behaves_bind.mpr ?_
  rw [behaves_get]
  split
  · exact readError_behaves raises
  · next enough => exact behaves_pure.mpr ⟨rfl, Int.not_lt.mp enough⟩

theorem advance_behaves {sz : Int} (fine : FitsInt (r.size - sz) ∨ ∀ failure, fails failure) :
    Behaves fails (advance sz) (fun _ t => t = r.move sz) r := by
  refine behaves_bind.mpr ?_
  rw [behaves_get]
  refine (intExpr_behaves fine).seq ?_
  rintro size t ⟨rfl, rfl, -⟩
  rfl

theorem bytesAt_behaves {ptr : Int} {sz : Nat}
    (fine : (0 ≤ ptr ∧ ptr + sz ≤ r.memory.length) ∨ ∀ failure, fails failure) :
    Behaves fails (bytesAt ptr sz)
      (fun bytes t => bytes = (r.memory.drop ptr.toNat).take sz ∧ t = r ∧ 0 ≤ ptr) r := by
  refine behaves_bind.mpr ?_
  rw [behaves_get]
  split
  · next held => exact behaves_pure.mpr ⟨rfl, rfl, held.1⟩
  · next missing => exact fine.resolve_left missing _

theorem readWord_behaves (raises : ∀ message, fails (.luaError message))
    (width : Nat) (fine : ((width : Int) ≤ r.size → Framed r) ∨ ∀ failure, fails failure) :
    Behaves fails (readWord width) (fun value t =>
      value = wordAt r width ∧ t = r.move width ∧ (width : Int) ≤ r.size ∧ 0 ≤ r.ptr) r := by
  refine (checkReader_behaves raises width).seq ?_
  rintro _ t ⟨rfl, enough⟩
  rw [behaves_bind, behaves_get]
  refine (bytesAt_behaves (fine.imp_left fun framed => ⟨(framed enough).first, ?_⟩)).seq ?_
  · have inside := (framed enough).inside
    omega
  · rintro bytes t ⟨rfl, rfl, first⟩
    refine (advance_behaves (fine.imp_left fun framed => ?_)).seq ?_
    · obtain ⟨_, left, _, narrow⟩ := framed enough
      exact ⟨by omega, by omega⟩
    · rintro _ t rfl
      exact ⟨rfl, rfl, enough, first⟩

theorem readByte_behaves (raises : ∀ message, fails (.luaError message))
    (fine : (1 ≤ r.size → Framed r) ∨ ∀ failure, fails failure) :
    Behaves fails readByte (fun _ t => t = r.move 1 ∧ 1 ≤ r.size ∧ 0 ≤ r.ptr) r := by
  refine (readWord_behaves raises 1 fine).seq ?_
  rintro value t ⟨-, moved⟩
  exact moved

theorem readInt32_behaves (raises : ∀ message, fails (.luaError message)) (framed : Framed r) :
    Behaves fails readInt32 (fun sz t => sz = lengthAt r ∧ t = r.move 4 ∧ 4 ≤ r.size) r := by
  refine (readWord_behaves raises 4 (.inl fun _ => framed)).seq ?_
  rintro value t ⟨rfl, moved, enough, -⟩
  exact ⟨rfl, moved, enough⟩

theorem readInt64_behaves (raises : ∀ message, fails (.luaError message)) (framed : Framed r) :
    Behaves fails readInt64 (fun _ => Onward r) r := by
  refine (readWord_behaves raises 8 (.inl fun _ => framed)).seq ?_
  rintro value t ⟨-, rfl, enough, -⟩
  exact (Onward.refl framed).move (by omega) enough

theorem readDouble_behaves (raises : ∀ message, fails (.luaError message)) (framed : Framed r) :
    Behaves fails readDouble (fun _ => Onward r) r := by
  refine (readWord_behaves raises 8 (.inl fun _ => framed)).seq ?_
  rintro value t ⟨-, rfl, enough, -⟩
  exact (Onward.refl framed).move (by omega) enough

theorem readBytes_behaves (raises : ∀ message, fails (.luaError message)) {sz : Int}
    (fine : sz ≤ r.size → FitsInt (r.size - sz) ∨ ∀ failure, fails failure) :
    Behaves fails (readBytes sz) (fun ptr t => ptr = r.ptr ∧ t = r.move sz ∧ sz ≤ r.size) r := by
  refine behaves_bind.mpr ?_
  rw [behaves_get]
  refine (checkReader_behaves raises sz).seq ?_
  rintro _ t ⟨rfl, enough⟩
  refine (advance_behaves (fine enough)).seq ?_
  rintro _ t rfl
  exact ⟨rfl, rfl, enough⟩

theorem scanCstring_cases (bytes : Bytes) (size : Int) (inside : size ≤ bytes.length)
    (left : 0 ≤ size) :
    scanCstring bytes size = .error (.luaError "Invalid bson block : cstring") ∨
      ∃ str, scanCstring bytes size = .ok str ∧ (str.length : Int) < size := by
  induction bytes generalizing size with
  | nil =>
      rw [List.length_nil] at inside
      have none : size = 0 := by omega
      rw [scanCstring, if_pos none]
      exact .inl rfl
  | cons byte rest inductionHypothesis =>
      rw [List.length_cons] at inside
      push_cast at inside
      rw [scanCstring]
      split
      · exact .inl rfl
      · next more =>
          split
          · exact .inr ⟨[], rfl, by rw [List.length_nil]; omega⟩
          · rcases inductionHypothesis (size - 1) (by omega) (by omega) with
              failed | ⟨str, found, shorter⟩
            · rw [failed]
              exact .inl rfl
            · refine .inr ⟨byte :: str, by rw [found]; rfl, ?_⟩
              rw [List.length_cons]
              push_cast
              omega

theorem readCstring_behaves (raises : ∀ message, fails (.luaError message)) (framed : Framed r) :
    Behaves fails readCstring
      (fun _ t => ∃ moved : Int, 1 ≤ moved ∧ moved ≤ r.size ∧ t = r.move moved) r := by
  obtain ⟨first, left, inside, narrow⟩ := framed
  have ahead : ¬ (r.size ≠ 0 ∧ r.ptr < 0) := by omega
  have enough : r.size ≤ (r.memory.drop r.ptr.toNat).length := by
    rw [List.length_drop]
    omega
  refine behaves_bind.mpr ?_
  rw [behaves_get, if_neg ahead]
  rcases scanCstring_cases _ _ enough left with failed | ⟨str, found, shorter⟩
  · rw [failed]
    exact raises _
  · rw [found]
    change Behaves fails (advance (str.length + 1) >>= fun _ => pure str) _ r
    refine (advance_behaves (.inl ⟨by omega, by omega⟩)).seq ?_
    rintro _ t rfl
    exact ⟨_, by omega, by omega, rfl⟩

theorem addlstring_behaves (raises : ∀ message, fails (.luaError message)) (held : Nat)
    {ptr sz : Int} (first : 0 ≤ ptr) (inside : ptr + sz ≤ r.memory.length) :
    Behaves fails (addlstring held ptr sz) (fun _ t => t = r ∧ 0 ≤ sz) r := by
  unfold addlstring
  split
  · next forward =>
      exact (bytesAt_behaves (.inl ⟨first, by omega⟩)).mono fun _ t read => ⟨read.2.1, forward⟩
  · split <;> exact readError_behaves raises

theorem makeObject_behaves (raises : ∀ message, fails (.luaError message)) (type : UInt8)
    {ptr len : Int} (first : 0 ≤ ptr) (inside : ptr + len ≤ r.memory.length) :
    Behaves fails (makeObject type ptr len) (fun _ t => t = r ∧ 0 ≤ len) r := by
  refine (addlstring_behaves raises 2 first inside).seq ?_
  rintro bytes t stays
  exact stays

theorem readString_behaves (raises : ∀ message, fails (.luaError message)) (framed : Framed r) :
    Behaves fails readString (fun _ => Onward r) r := by
  refine (readInt32_behaves raises framed).seq ?_
  rintro sz t ⟨-, rfl, head⟩
  obtain ⟨first, left, inside, narrow⟩ := framed
  split
  · exact readError_behaves raises
  · next positive =>
      refine (readBytes_behaves raises fun enough => .inl ⟨by omega, ?_⟩).seq ?_
      · rw [Reader.move_size]
        omega
      · rintro ptr t ⟨rfl, rfl, enough⟩
        rw [Reader.move_size] at enough
        refine (bytesAt_behaves (.inl ?_)).seq ?_
        · simp only [Reader.move_ptr, Reader.move_memory]
          omega
        · rintro bytes t ⟨-, rfl, -⟩
          exact ⟨4 + sz, by omega, by omega, Reader.move_move r 4 sz⟩

theorem readBinary_behaves (raises : ∀ message, fails (.luaError message)) (framed : Framed r)
    (fine : 5 ≤ r.size → r.size - 5 - lengthAt r < 2 ^ 31 ∨ ∀ failure, fails failure) :
    Behaves fails readBinary (fun _ => Onward r) r := by
  refine (readInt32_behaves raises framed).seq ?_
  rintro sz t ⟨length, rfl, head⟩
  have behind : Framed (r.move 4) :=
    framed.move (Int.add_nonneg framed.first (by decide)) head
  refine (readByte_behaves raises (.inl fun _ => behind)).seq ?_
  rintro subtype t ⟨rfl, more, -⟩
  rw [Reader.move_size] at more
  rw [Reader.move_move]
  have fits := lengthAt_fits r
  rw [← length] at fine fits
  obtain ⟨first, left, inside, narrow⟩ := framed
  refine (readBytes_behaves raises fun enough => ?_).seq ?_
  · rw [Reader.move_size] at enough ⊢
    exact (fine (by omega)).imp_left fun upper => ⟨by omega, by omega⟩
  · rintro ptr t ⟨rfl, rfl, enough⟩
    rw [Reader.move_size] at enough
    refine (addlstring_behaves raises 3 ?_ ?_).seq ?_
    · rw [Reader.move_ptr]
      omega
    · simp only [Reader.move_ptr, Reader.move_memory]
      omega
    · rintro bytes t ⟨rfl, forward⟩
      exact ⟨4 + 1 + sz, by omega, by omega, Reader.move_move r (4 + 1) sz⟩

theorem readObjectid_behaves (raises : ∀ message, fails (.luaError message)) (framed : Framed r) :
    Behaves fails readObjectid (fun _ => Onward r) r := by
  obtain ⟨first, left, inside, narrow⟩ := framed
  refine (readBytes_behaves raises fun enough => .inl ⟨by omega, by omega⟩).seq ?_
  rintro ptr t ⟨rfl, rfl, enough⟩
  refine (makeObject_behaves raises _ first ?_).mono ?_
  · rw [Reader.move_memory]
    omega
  · rintro value t ⟨rfl, -⟩
    exact ⟨12, by omega, enough, rfl⟩

theorem readRegex_behaves (raises : ∀ message, fails (.luaError message)) (framed : Framed r) :
    Behaves fails readRegex (fun _ => Onward r) r := by
  refine (readCstring_behaves raises framed).seq ?_
  rintro pattern t ⟨moved, forward, enough, rfl⟩
  have onward : Onward r (r.move moved) := ⟨moved, by omega, enough, rfl⟩
  refine (readCstring_behaves raises (onward.framed framed)).seq ?_
  rintro options t ⟨further, forward, enough, rfl⟩
  exact onward.move (by omega) enough

theorem readTimestamp_behaves (raises : ∀ message, fails (.luaError message))
    (framed : Framed r) : Behaves fails readTimestamp (fun _ => Onward r) r := by
  refine (readInt32_behaves raises framed).seq ?_
  rintro inc t ⟨-, rfl, enough⟩
  have onward : Onward r (r.move 4) := ⟨4, by omega, enough, rfl⟩
  refine (readInt32_behaves raises (onward.framed framed)).seq ?_
  rintro ts t ⟨-, rfl, enough⟩
  exact onward.move (by omega) enough

/-- The copy of the length and of all behind it fails where it would go backwards. -/
theorem readRaw_behaves (raises : ∀ message, fails (.luaError message)) (framed : Framed r)
    (type : UInt8) (behind : Int)
    (fine : 4 ≤ r.size → (FitsInt (lengthAt r + behind) ∧
      r.size - 4 - (lengthAt r + behind) < 2 ^ 31) ∨ ∀ failure, fails failure) :
    Behaves fails (readRaw type behind (behind + 4)) (fun _ => Onward r) r := by
  unfold readRaw
  refine behaves_bind.mpr ?_
  rw [behaves_get]
  refine (readInt32_behaves raises framed).seq ?_
  rintro sz t ⟨length, rfl, head⟩
  have whole : sz + (behind + 4) = 4 + (sz + behind) := by omega
  rw [← length] at fine
  rw [whole]
  generalize sz + behind = count at fine
  obtain ⟨first, left, inside, narrow⟩ := framed
  refine (intExpr_behaves ((fine head).imp_left And.left)).seq ?_
  rintro rest t ⟨rfl, rfl, fits⟩
  refine (readBytes_behaves raises fun enough => ?_).seq ?_
  · rw [Reader.move_size] at enough ⊢
    exact (fine head).imp_left fun upper => ⟨by omega, upper.2⟩
  · rintro ptr t ⟨-, rfl, enough⟩
    rw [Reader.move_size] at enough
    obtain ⟨lower, upper⟩ := fits
    refine (intExpr_behaves (.inl ⟨by omega, by omega⟩)).seq ?_
    rintro len t ⟨rfl, rfl, -⟩
    refine (makeObject_behaves raises _ first ?_).mono ?_
    · simp only [Reader.move_memory]
      omega
    · rintro value t ⟨rfl, forward⟩
      exact ⟨4 + rest, forward, by omega, Reader.move_move r 4 rest⟩

end Rules

end CrossOver.Lua.Bson
