import CrossOver.Lib.Result
import CrossOver.Lib.Varint
import Mathlib.Tactic.IntervalCases

/-!
# `lua_pb`: numbers on the wire

A slice is the bytes from its position to its end.  `pb_readvarint32` and
`pb_readvarint64` have a path for one byte, an unrolled path that does not look where
the slice ends, and a loop for what is left; the unrolled path is taken when ten bytes
follow or when the last byte of the slice ends a number.
-/

namespace CrossOver.Lua.Pb

open CrossOver.Lib

/-- `pb_Slice`, with `pb_pos` for `start`. -/
structure Slice where
  pos : Nat
  data : Bytes
  deriving DecidableEq, Repr

def Slice.from (s : Slice) (data : Bytes) : Slice where
  pos := s.pos + (s.data.length - data.length)
  data := data

inductive Failure where
  /-- a read behind the end of a slice -/
  | outside
  | luaError (message : Bytes)
  | argError (arg : Nat) (message : Bytes)
  /-- the raw access to a value that is not a table -/
  | notTable
  /-- messages so deep in each other that the free slots of the Lua stack may run out -/
  | stack
  /-- more bytes than `pb_Buffer.size` is sure to count -/
  | full
  /-- the bound of the model on the depth of a recursion -/
  | fuel
  deriving DecidableEq, Repr

def nextByte : Bytes → Except Failure (UInt8 × Bytes)
  | [] => .error .outside
  | byte :: rest => .ok (byte, rest)

/-- The loop of `pb_readvarint_slow`, with `left` more turns. -/
def slowLoop : Nat → Nat → UInt64 → Bytes → Option (UInt64 × Bytes)
  | 0, _, _, _ => none
  | _ + 1, _, _, [] => none
  | left + 1, i, n, b :: rest =>
      let n := n ||| (b.toUInt64 &&& 0x7F) <<< UInt64.ofNat (7 * i)
      if b &&& 0x80 = 0 then some (n, rest) else slowLoop left (i + 1) n rest

def readvarintSlow (s : Slice) : Option (UInt64 × Slice) :=
  (slowLoop 10 0 0 s.data).map fun (n, rest) => (n, s.from rest)

/-- The lines `if (!(*p++ & 0x80)) break;` -/
def ignored32 (n : UInt32) : Nat → Bytes → Except Failure (Option (UInt32 × Bytes))
  | 0, _ => .ok none
  | count + 1, p => do
      let (b, p) ← nextByte p
      if b &&& 0x80 = 0 then return some (n, p) else ignored32 n count p

/-- The lines `n -= 0x80 << before, n += (b = *p++) << (before + 7); if (!(b & 0x80)) break;` -/
def lines32 : Nat → Nat → UInt32 → Bytes → Except Failure (Option (UInt32 × Bytes))
  | 0, _, n, p => ignored32 n 5 p
  | count + 1, before, n, p => do
      let (b, p) ← nextByte p
      let n := n - 0x80 <<< UInt32.ofNat before + b.toUInt32 <<< UInt32.ofNat (before + 7)
      if b &&& 0x80 = 0 then return some (n, p) else lines32 count (before + 7) n p

def readvarint32Fallback (s : Slice) : Except Failure (Option (UInt32 × Slice)) := do
  let (b, p) ← nextByte s.data
  let found ← lines32 4 0 b.toUInt32 p
  return found.map fun (n, p) => (n, s.from p)

/-- `n1`, `n2` and `n3` -/
structure Words where
  n1 : UInt32
  n2 : UInt32
  n3 : UInt32

def Words.add (w : Words) : Nat → UInt32 → Words
  | 0, n => { w with n1 := w.n1 + n }
  | 1, n => { w with n2 := w.n2 + n }
  | _, n => { w with n3 := w.n3 + n }

def Words.sub (w : Words) : Nat → UInt32 → Words
  | 0, n => { w with n1 := w.n1 - n }
  | 1, n => { w with n2 := w.n2 - n }
  | _, n => { w with n3 := w.n3 - n }

/-- `n1 | ((uint64_t)n2 << 28) | ((uint64_t)n3 << 56)` -/
def Words.value (w : Words) : UInt64 :=
  w.n1.toUInt64 ||| w.n2.toUInt64 <<< 28 ||| w.n3.toUInt64 <<< 56

/-- One line: the high bit of the byte in front goes off its word, and the next byte to its own. -/
def Words.line (w : Words) (index : Nat) (b : UInt8) : Words :=
  (w.sub ((index - 1) / 4) (0x80 <<< UInt32.ofNat (7 * ((index - 1) % 4)))).add (index / 4)
    (b.toUInt32 <<< UInt32.ofNat (7 * (index % 4)))

def lines64 : Nat → Nat → Words → Bytes → Except Failure (Option (UInt64 × Bytes))
  | 0, _, _, _ => .ok none
  | count + 1, index, w, p => do
      let (b, p) ← nextByte p
      let w := w.line index b
      if b &&& 0x80 = 0 then return some (w.value, p) else lines64 count (index + 1) w p

def readvarint64Fallback (s : Slice) : Except Failure (Option (UInt64 × Slice)) := do
  let (b, p) ← nextByte s.data
  let found ← lines64 9 1 ⟨b.toUInt32, 0, 0⟩ p
  return found.map fun (n, p) => (n, s.from p)

/-- `pb_len(*s) >= 10 || !(s->end[-1] & 0x80)` -/
def unrolled (data : Bytes) : Bool :=
  10 ≤ data.length || data.getLast?.any fun last => last &&& 0x80 == 0

def readvarint32 (s : Slice) : Except Failure (Option (UInt32 × Slice)) :=
  match s.data with
  | [] => .ok none
  | b :: rest =>
      if b &&& 0x80 = 0 then .ok (some (b.toUInt32, s.from rest))
      else if unrolled s.data then readvarint32Fallback s
      else .ok ((readvarintSlow s).map fun found => (found.1.toUInt32, found.2))

def readvarint64 (s : Slice) : Except Failure (Option (UInt64 × Slice)) :=
  match s.data with
  | [] => .ok none
  | b :: rest =>
      if b &&& 0x80 = 0 then .ok (some (b.toUInt64, s.from rest))
      else if unrolled s.data then readvarint64Fallback s
      else .ok (readvarintSlow s)

/-- The lines `p = n & 0x7F; if ((n >>= 7) == 0) break; *buff++ = p | 0x80, ++c;` with the byte
that is written behind them. -/
def writeLines (last : Nat → Nat) : Nat → Nat → Bytes
  | 0, n => [UInt8.ofNat (last n)]
  | lines + 1, n =>
      let p := n &&& 0x7F
      if n >>> 7 = 0 then [UInt8.ofNat p]
      else UInt8.ofNat (p ||| 0x80) :: writeLines last lines (n >>> 7)

def write32 (n : UInt32) : Bytes := writeLines id 4 n.toNat

def write64 (n : UInt64) : Bytes := writeLines (· &&& 0x7F) 9 n.toNat

section Digits

theorem high_bit (b : UInt8) : b &&& 0x80 = 0 ↔ b.toNat < 128 := by
  have table : ∀ n < 256, n &&& 128 = 0 ↔ n < 128 := by decide +kernel
  rw [← UInt8.toNat_inj, UInt8.toNat_and]
  exact table b.toNat b.toNat_lt

theorem low_bits (b : UInt8) : (b.toUInt64 &&& 0x7F).toNat = b.toNat % 128 := by
  have bits : (b.toUInt64 &&& 0x7F).toNat = b.toNat &&& (2 ^ 7 - 1) := by
    rw [UInt64.toNat_and, UInt8.toNat_toUInt64]
    rfl
  rw [bits, Nat.and_two_pow_sub_one_eq_mod]

/-- New bits above the old ones are added. -/
theorem or_shift {n x : UInt64} {shift : Nat} (low : n.toNat < 2 ^ shift) (inside : shift < 64) :
    n ||| x <<< UInt64.ofNat shift = UInt64.ofNat (n.toNat + x.toNat * 2 ^ shift) := by
  have amount : (UInt64.ofNat shift).toNat % 64 = shift := by
    rw [UInt64.toNat_ofNat']
    omega
  have size := n.toNat_lt
  apply UInt64.toNat_inj.mp
  rw [UInt64.toNat_or, UInt64.toNat_shiftLeft, amount, UInt64.toNat_ofNat']
  nth_rewrite 1 [← Nat.mod_eq_of_lt size]
  rw [← Nat.or_mod_two_pow, Nat.shiftLeft_eq, Nat.mul_comm, Nat.or_comm,
    ← Nat.two_pow_add_eq_or_of_lt low, Nat.add_comm]

theorem slowLoop_eq {left i : Nat} {n : UInt64} (turns : i + left = 10)
    (low : n.toNat < 2 ^ (7 * i)) (bytes : Bytes) :
    slowLoop left i n bytes = (Varint.decode left bytes).map fun found =>
      (UInt64.ofNat (n.toNat + found.1 * 2 ^ (7 * i)), found.2) := by
  induction left generalizing i n bytes with
  | zero => rfl
  | succ left inductionHypothesis =>
      cases bytes with
      | nil => rfl
      | cons b rest =>
          have digit := or_shift (x := b.toUInt64 &&& 0x7F) low (by omega)
          rw [low_bits] at digit
          rw [slowLoop, digit]
          by_cases last : b.toNat < 128
          · rw [if_pos ((high_bit b).mpr last), Varint.decode_last last, Nat.mod_eq_of_lt last]
            rfl
          · rw [if_neg (fun zero => last ((high_bit b).mp zero)), Varint.decode_more last]
            cases left with
            | zero => rfl
            | succ left =>
                have size := b.toNat_lt
                have payload : b.toNat % 128 = b.toNat - 128 := by omega
                have power : 2 ^ (7 * (i + 1)) = 128 * 2 ^ (7 * i) := by
                  rw [Nat.mul_add, pow_add, mul_comm]
                  rfl
                have bound : n.toNat + b.toNat % 128 * 2 ^ (7 * i) < 2 ^ (7 * (i + 1)) := by
                  have most : b.toNat % 128 * 2 ^ (7 * i) ≤ 127 * 2 ^ (7 * i) :=
                    Nat.mul_le_mul_right _ (by omega)
                  omega
                have word : n.toNat + b.toNat % 128 * 2 ^ (7 * i) < 2 ^ 64 :=
                  lt_of_lt_of_le bound (Nat.pow_le_pow_right (by decide) (by omega))
                have same : (UInt64.ofNat (n.toNat + b.toNat % 128 * 2 ^ (7 * i))).toNat =
                    n.toNat + b.toNat % 128 * 2 ^ (7 * i) := by
                  rw [UInt64.toNat_ofNat', Nat.mod_eq_of_lt word]
                rw [inductionHypothesis (by omega) (by rw [same]; exact bound), same, payload,
                  Option.map_map, power]
                congr 1
                funext found
                simp only [Function.comp_apply, Prod.mk.injEq, and_true]
                congr 1
                ring

/-- The loop reads a number in base 128 of at most ten digits, modulo 2 ^ 64. -/
theorem readvarintSlow_eq (s : Slice) :
    readvarintSlow s = (Varint.decode 10 s.data).map fun found =>
      (UInt64.ofNat found.1, s.from found.2) := by
  rw [readvarintSlow, slowLoop_eq rfl (by decide), Option.map_map]
  congr 1
  funext found
  simp

end Digits

section Unrolled

/-- Reading up to `limit` bytes of a number does not leave the bytes. -/
def Bounded (limit : Nat) (p : Bytes) : Prop :=
  limit ≤ p.length ∨ (Varint.decode limit p).isSome = true

theorem Bounded.rest {limit : Nat} {b : UInt8} {rest : Bytes} (bounded : Bounded (limit + 1) (b :: rest))
    (more : ¬ b.toNat < 128) : Bounded limit rest := by
  rcases bounded with long | found
  · exact .inl (Nat.le_of_succ_le_succ long)
  · rw [Varint.decode_more more, Option.isSome_map] at found
    exact .inr found

theorem not_bounded_nil (limit : Nat) : ¬ Bounded (limit + 1) [] := by
  rintro (long | found)
  · exact absurd long (Nat.not_succ_le_zero limit)
  · cases found

theorem ignored32_cons (n : UInt32) (count : Nat) (b : UInt8) (rest : Bytes) :
    ignored32 n (count + 1) (b :: rest) =
      if b &&& 0x80 = 0 then .ok (some (n, rest)) else ignored32 n count rest := rfl

theorem ignored32_eq {count : Nat} {p : Bytes} (n : UInt32) (bounded : Bounded count p) :
    ignored32 n count p = .ok ((Varint.decode count p).map fun found => (n, found.2)) := by
  induction count generalizing p with
  | zero => rfl
  | succ count inductionHypothesis =>
      cases p with
      | nil => exact absurd bounded (not_bounded_nil count)
      | cons b rest =>
          rw [ignored32_cons]
          by_cases last : b.toNat < 128
          · rw [if_pos ((high_bit b).mpr last), Varint.decode_last last]
            rfl
          · rw [if_neg (fun zero => last ((high_bit b).mp zero)),
              inductionHypothesis (bounded.rest last), Varint.decode_more last, Option.map_map]
            rfl

theorem shift32 (x : Nat) {shift : Nat} (inside : shift < 32) :
    UInt32.ofNat x <<< UInt32.ofNat shift = UInt32.ofNat (x * 2 ^ shift) := by
  have amount : (UInt32.ofNat shift).toNat % 32 = shift := by
    rw [UInt32.toNat_ofNat']
    omega
  apply UInt32.toNat_inj.mp
  rw [UInt32.toNat_shiftLeft, amount, UInt32.toNat_ofNat', UInt32.toNat_ofNat', Nat.shiftLeft_eq]
  simp [Nat.mul_mod]

theorem lines32_cons (count before : Nat) (n : UInt32) (b : UInt8) (rest : Bytes) :
    lines32 (count + 1) before n (b :: rest) =
      let n := n - 0x80 <<< UInt32.ofNat before + b.toUInt32 <<< UInt32.ofNat (before + 7)
      if b &&& 0x80 = 0 then .ok (some (n, rest)) else lines32 count (before + 7) n rest := rfl

theorem lines32_eq {count before acc : Nat} {p : Bytes} (lines : 7 * count + before = 28)
    (bounded : Bounded (count + 5) p) :
    lines32 count before (UInt32.ofNat (acc + 128 * 2 ^ before)) p =
      .ok ((Varint.decode (count + 5) p).map fun found =>
        (UInt32.ofNat (acc + found.1 * 2 ^ (before + 7)), found.2)) := by
  induction count generalizing before acc p with
  | zero =>
      obtain rfl : before = 28 := by omega
      have gone : ∀ x, UInt32.ofNat (acc + x * 2 ^ 35) = UInt32.ofNat acc := by
        intro x
        apply UInt32.toNat_inj.mp
        rw [UInt32.toNat_ofNat', UInt32.toNat_ofNat']
        omega
      have same : UInt32.ofNat (acc + 128 * 2 ^ 28) = UInt32.ofNat acc := gone 1
      rw [lines32, ignored32_eq _ bounded, same]
      congr 3
      funext found
      rw [gone]
  | succ count inductionHypothesis =>
      cases p with
      | nil => exact absurd bounded (not_bounded_nil (count + 5))
      | cons b rest =>
          have byte : b.toUInt32 = UInt32.ofNat b.toNat := by
            apply UInt32.toNat_inj.mp
            rw [UInt8.toNat_toUInt32, UInt32.toNat_ofNat']
            have size := b.toNat_lt
            omega
          have line : UInt32.ofNat (acc + 128 * 2 ^ before) - 0x80 <<< UInt32.ofNat before +
              b.toUInt32 <<< UInt32.ofNat (before + 7) =
              UInt32.ofNat (acc + b.toNat * 2 ^ (before + 7)) := by
            have first := shift32 128 (show before < 32 by omega)
            have second := shift32 b.toNat (show before + 7 < 32 by omega)
            rw [byte, second, UInt32.ofNat_add, UInt32.ofNat_add acc (b.toNat * _), ← first]
            congr 1
            exact UInt32.add_sub_cancel _ _
          have digits : count + 1 + 5 = (count + 5) + 1 := by omega
          rw [digits] at bounded ⊢
          rw [lines32_cons, line]
          by_cases last : b.toNat < 128
          · rw [if_pos ((high_bit b).mpr last), Varint.decode_last last]
            rfl
          · have pending : acc + b.toNat * 2 ^ (before + 7) =
                (acc + (b.toNat - 128) * 2 ^ (before + 7)) + 128 * 2 ^ (before + 7) := by
              rw [Nat.add_assoc, ← Nat.add_mul, Nat.sub_add_cancel (by omega)]
            rw [if_neg (fun zero => last ((high_bit b).mp zero)), pending,
              inductionHypothesis (by omega) (bounded.rest last), Varint.decode_more last,
              Option.map_map]
            have same : ∀ value, acc + (b.toNat - 128) * 2 ^ (before + 7) +
                value * 2 ^ (before + 7 + 7) =
                acc + (b.toNat - 128 + 128 * value) * 2 ^ (before + 7) := by
              intro value
              ring
            simp only [Function.comp_def, same]

/-- The three words hold `total`, and none but the last one in use has more than its 28 bits. -/
structure Words.Holds (w : Words) (index total : Nat) : Prop where
  sum : w.n1.toNat + 2 ^ 28 * w.n2.toNat + 2 ^ 56 * w.n3.toNat = total
  first : 4 ≤ index → w.n1.toNat < 2 ^ 28
  second : 8 ≤ index → w.n2.toNat < 2 ^ 28
  noSecond : index < 4 → w.n2.toNat = 0
  noThird : index < 8 → w.n3.toNat = 0

theorem Words.Holds.value {w : Words} {index total : Nat} (holds : w.Holds index total)
    (bound : total < 2 ^ (7 * (index + 1))) : w.value = UInt64.ofNat total := by
  have low : total < 2 ^ 28 ∨ 4 ≤ index := by
    by_cases small : index < 4
    · exact .inl (lt_of_lt_of_le bound (Nat.pow_le_pow_right (by decide) (by omega)))
    · exact .inr (Nat.le_of_not_lt small)
  have middle : total < 2 ^ 56 ∨ 8 ≤ index := by
    by_cases small : index < 8
    · exact .inl (lt_of_lt_of_le bound (Nat.pow_le_pow_right (by decide) (by omega)))
    · exact .inr (Nat.le_of_not_lt small)
  have sum := holds.sum
  have first : w.n1.toNat < 2 ^ 28 := by
    rcases low with small | later
    · omega
    · exact holds.first later
  have second : w.n2.toNat < 2 ^ 28 := by
    rcases middle with small | later
    · omega
    · exact holds.second later
  have lower : w.n1.toUInt64 ||| w.n2.toUInt64 <<< 28 =
      UInt64.ofNat (w.n1.toNat + w.n2.toNat * 2 ^ 28) := by
    have joined := or_shift (x := w.n2.toUInt64) (UInt32.toNat_toUInt64 w.n1 ▸ first) (by decide)
    rwa [UInt32.toNat_toUInt64, UInt32.toNat_toUInt64] at joined
  have both : (UInt64.ofNat (w.n1.toNat + w.n2.toNat * 2 ^ 28)).toNat =
      w.n1.toNat + w.n2.toNat * 2 ^ 28 := by
    rw [UInt64.toNat_ofNat']
    omega
  have fits : (UInt64.ofNat (w.n1.toNat + w.n2.toNat * 2 ^ 28)).toNat < 2 ^ 56 := by
    rw [both]
    omega
  have upper := or_shift (x := w.n3.toUInt64) fits (by decide)
  rw [both, UInt32.toNat_toUInt64] at upper
  have same : w.n1.toNat + w.n2.toNat * 2 ^ 28 + w.n3.toNat * 2 ^ 56 = total := by omega
  rw [← same, ← upper, ← lower]
  rfl

/-- The byte in front gives its high bit back, and the next one is added behind it. -/
theorem Words.Holds.line {w : Words} {index acc : Nat} (within : index < 9)
    (holds : w.Holds index (acc + 2 ^ (7 * (index + 1)))) (low : acc < 2 ^ (7 * (index + 1)))
    (b : UInt8) :
    (w.line (index + 1) b).Holds (index + 1) (acc + b.toNat * 2 ^ (7 * (index + 1))) := by
  rcases holds with ⟨sum, first, second, noSecond, noThird⟩
  have size := b.toNat_lt
  interval_cases index <;> constructor <;>
    simp [Words.line, Words.add, Words.sub, UInt32.toNat_sub, Nat.shiftLeft_eq] at * <;> omega

theorem lines64_cons (count index : Nat) (w : Words) (b : UInt8) (rest : Bytes) :
    lines64 (count + 1) index w (b :: rest) =
      if b &&& 0x80 = 0 then .ok (some ((w.line index b).value, rest))
      else lines64 count (index + 1) (w.line index b) rest := rfl

theorem lines64_eq {count index acc : Nat} {w : Words} {p : Bytes} (lines : count + index = 9)
    (holds : w.Holds index (acc + 2 ^ (7 * (index + 1)))) (low : acc < 2 ^ (7 * (index + 1)))
    (bounded : Bounded count p) :
    lines64 count (index + 1) w p = .ok ((Varint.decode count p).map fun found =>
      (UInt64.ofNat (acc + found.1 * 2 ^ (7 * (index + 1))), found.2)) := by
  induction count generalizing index acc w p with
  | zero => rfl
  | succ count inductionHypothesis =>
      cases p with
      | nil => exact absurd bounded (not_bounded_nil count)
      | cons b rest =>
          have next := holds.line (by omega) low b
          have power : 2 ^ (7 * (index + 1 + 1)) = 128 * 2 ^ (7 * (index + 1)) := by
            rw [Nat.mul_add 7 (index + 1) 1, pow_add, mul_comm]
            rfl
          rw [lines64_cons]
          by_cases last : b.toNat < 128
          · have bound : acc + b.toNat * 2 ^ (7 * (index + 1)) < 2 ^ (7 * (index + 1 + 1)) := by
              have most : b.toNat * 2 ^ (7 * (index + 1)) ≤ 127 * 2 ^ (7 * (index + 1)) :=
                Nat.mul_le_mul_right _ (by omega)
              omega
            rw [if_pos ((high_bit b).mpr last), Varint.decode_last last, next.value bound]
            rfl
          · have split : acc + b.toNat * 2 ^ (7 * (index + 1)) =
                acc + (b.toNat - 128) * 2 ^ (7 * (index + 1)) + 2 ^ (7 * (index + 1 + 1)) := by
              rw [power, Nat.add_assoc, ← Nat.add_mul, Nat.sub_add_cancel (by omega)]
            have bound : acc + (b.toNat - 128) * 2 ^ (7 * (index + 1)) <
                2 ^ (7 * (index + 1 + 1)) := by
              have most : (b.toNat - 128) * 2 ^ (7 * (index + 1)) ≤ 127 * 2 ^ (7 * (index + 1)) := by
                have size := b.toNat_lt
                exact Nat.mul_le_mul_right _ (by omega)
              omega
            have same : ∀ value, acc + (b.toNat - 128) * 2 ^ (7 * (index + 1)) +
                value * 2 ^ (7 * (index + 1 + 1)) =
                acc + (b.toNat - 128 + 128 * value) * 2 ^ (7 * (index + 1)) := by
              intro value
              rw [power]
              ring
            rw [split] at next
            rw [if_neg (fun zero => last ((high_bit b).mp zero)),
              inductionHypothesis (by omega) next bound (bounded.rest last),
              Varint.decode_more last, Option.map_map]
            simp only [Function.comp_def, same]

end Unrolled

section Reading

theorem bounded_of_unrolled {b : UInt8} {rest : Bytes} (more : ¬ b.toNat < 128)
    (taken : unrolled (b :: rest) = true) : Bounded 9 rest := by
  rw [unrolled, Bool.or_eq_true] at taken
  rcases taken with long | ended
  · exact .inl (Nat.le_of_succ_le_succ (of_decide_eq_true long))
  · by_cases long : 9 ≤ rest.length
    · exact .inl long
    · cases found : (b :: rest).getLast? with
      | none => cases List.getLast?_eq_none_iff.mp found
      | some last =>
      rw [found, Option.any_some] at ended
      have small := (high_bit last).mp (by simpa using ended)
      have inside : last ∈ rest := by
        rcases List.mem_cons.mp (List.mem_of_getLast? found) with equal | tail
        · exact absurd (equal ▸ small) more
        · exact tail
      refine .inr (Varint.decode_isSome_iff.mpr ⟨last, ?_, small⟩)
      rw [List.take_of_length_le (by omega)]
      exact inside

theorem slow_one {s : Slice} {b : UInt8} {rest : Bytes} (data : s.data = b :: rest)
    (last : b.toNat < 128) : readvarintSlow s = some (b.toUInt64, s.from rest) := by
  have byte : UInt64.ofNat b.toNat = b.toUInt64 := by
    apply UInt64.toNat_inj.mp
    have size := b.toNat_lt
    rw [UInt64.toNat_ofNat', UInt8.toNat_toUInt64]
    omega
  rw [readvarintSlow_eq, data, Varint.decode_last last, ← byte]
  rfl

/-- The paths of `pb_readvarint64` agree with the loop, and none of them reads outside. -/
theorem readvarint64_eq (s : Slice) : readvarint64 s = .ok (readvarintSlow s) := by
  cases data : s.data with
  | nil =>
      rw [readvarint64, data, readvarintSlow_eq, data]
      rfl
  | cons b rest =>
      by_cases last : b.toNat < 128
      · rw [slow_one data last, readvarint64, data]
        exact if_pos ((high_bit b).mpr last)
      · have more : ¬ b &&& 0x80 = 0 := fun zero => last ((high_bit b).mp zero)
        by_cases taken : unrolled (b :: rest) = true
        · have start : Words.Holds ⟨b.toUInt32, 0, 0⟩ 0 (b.toNat - 128 + 2 ^ (7 * (0 + 1))) := by
            constructor <;> simp
            omega
          have low : b.toNat - 128 < 2 ^ (7 * (0 + 1)) := by
            have size := b.toNat_lt
            omega
          have found : lines64 9 1 ⟨b.toUInt32, 0, 0⟩ rest = _ :=
            lines64_eq rfl start low (bounded_of_unrolled last taken)
          have fallback : readvarint64Fallback s = .ok (readvarintSlow s) := by
            rw [readvarint64Fallback, data, nextByte, ok_bind]
            simp only [found]
            rw [ok_bind, readvarintSlow_eq, data, Varint.decode_more last, Option.map_map]
            simp only [pure, Except.pure, Option.map_map, Function.comp_def, Nat.mul_comm]
            rfl
          simp only [readvarint64, data, if_neg more, taken, if_true, fallback]
        · simp only [readvarint64, data, if_neg more, taken]
          rfl

/-- The same for `pb_readvarint32`, whose value is cut to 32 bits. -/
theorem readvarint32_eq (s : Slice) :
    readvarint32 s = .ok ((readvarintSlow s).map fun found => (found.1.toUInt32, found.2)) := by
  cases data : s.data with
  | nil =>
      rw [readvarint32, data, readvarintSlow_eq, data]
      rfl
  | cons b rest =>
      by_cases last : b.toNat < 128
      · have byte : b.toUInt64.toUInt32 = b.toUInt32 := UInt8.toUInt32_toUInt64 b
        rw [slow_one data last, readvarint32, data, Option.map_some, byte]
        exact if_pos ((high_bit b).mpr last)
      · have more : ¬ b &&& 0x80 = 0 := fun zero => last ((high_bit b).mp zero)
        by_cases taken : unrolled (b :: rest) = true
        · have start : UInt32.ofNat (b.toNat - 128 + 128 * 2 ^ 0) = b.toUInt32 := by
            apply UInt32.toNat_inj.mp
            have size := b.toNat_lt
            rw [UInt32.toNat_ofNat', UInt8.toNat_toUInt32]
            omega
          have found : lines32 4 0 (UInt32.ofNat (b.toNat - 128 + 128 * 2 ^ 0)) rest = _ :=
            lines32_eq rfl (bounded_of_unrolled last taken)
          rw [start] at found
          have fallback : readvarint32Fallback s =
              .ok ((readvarintSlow s).map fun found => (found.1.toUInt32, found.2)) := by
            rw [readvarint32Fallback, data, nextByte, ok_bind]
            simp only [found]
            rw [ok_bind, readvarintSlow_eq, data, Varint.decode_more last, Option.map_map,
              Option.map_map]
            simp only [pure, Except.pure, Option.map_map, Function.comp_def, Nat.mul_comm,
              UInt64.toUInt32_ofNat']
            rfl
          simp only [readvarint32, data, if_neg more, taken, if_true, fallback]
        · simp only [readvarint32, data, if_neg more, taken]
          rfl

/-- The unrolled paths agree with the loop on every slice, and none of them reads outside. -/
theorem readvarint_eq (s : Slice) :
    readvarint64 s = .ok (readvarintSlow s) ∧
      readvarint32 s =
        .ok ((readvarintSlow s).map fun found => (found.1.toUInt32, found.2)) :=
  ⟨readvarint64_eq s, readvarint32_eq s⟩

end Reading

section Writing

theorem writeLines_eq {last : Nat → Nat} (same : ∀ n < 128, last n = n) {lines n : Nat}
    (fits : n < 128 ^ (lines + 1)) : writeLines last lines n = Varint.encode (lines + 1) n := by
  have low : ∀ m : Nat, m &&& 0x7F = m % 128 := fun m => Nat.and_two_pow_sub_one_eq_mod m 7
  have high : ∀ m : Nat, m >>> 7 = m / 128 := fun m => Nat.shiftRight_eq_div_pow m 7
  induction lines generalizing n with
  | zero =>
      have small : n < 128 := by simpa using fits
      rw [writeLines, Varint.encode, if_pos small, same n small]
  | succ lines inductionHypothesis =>
      rw [writeLines, Varint.encode, low, high]
      by_cases small : n < 128
      · rw [if_pos (by omega), if_pos small, Nat.mod_eq_of_lt small]
      · have more : n % 128 ||| 0x80 = n % 128 + 128 := by
          have joined := Nat.two_pow_add_eq_or_of_lt (i := 7) (Nat.mod_lt n (by decide)) 1
          rw [Nat.or_comm, ← joined, Nat.add_comm]
        have quotient : n / 128 < 128 ^ (lines + 1) := by
          apply Nat.div_lt_of_lt_mul
          rwa [pow_succ, mul_comm] at fits
        simp only [if_neg small, more, inductionHypothesis quotient]
        rw [if_neg (by omega)]

theorem write32_eq (n : UInt32) : write32 n = Varint.encode 5 n.toNat :=
  writeLines_eq (fun _ _ => rfl) (lt_of_lt_of_le n.toNat_lt (by decide))

theorem write64_eq (n : UInt64) : write64 n = Varint.encode 10 n.toNat := by
  refine writeLines_eq (fun m small => ?_) (lt_of_lt_of_le n.toNat_lt (by decide))
  exact (Nat.and_two_pow_sub_one_eq_mod m 7).trans (Nat.mod_eq_of_lt small)

theorem Slice.from_append (pos : Nat) (front rest : Bytes) :
    Slice.from ⟨pos, front ++ rest⟩ rest = ⟨pos + front.length, rest⟩ := by
  rw [Slice.from, List.length_append, Nat.add_sub_cancel]

theorem write32_eq_ten (n : UInt32) : write32 n = Varint.encode 10 n.toNat := by
  have fits : n.toNat < 128 ^ 5 := lt_of_lt_of_le n.toNat_lt (by decide)
  rw [write32_eq, Varint.encode_room fits (show 5 ≤ 10 by decide) (by decide)]

theorem readvarint64_write64 (n : UInt64) (pos : Nat) (rest : Bytes) :
    readvarint64 ⟨pos, write64 n ++ rest⟩ =
      .ok (some (n, ⟨pos + (write64 n).length, rest⟩)) := by
  have fits : n.toNat < 128 ^ 10 := lt_of_lt_of_le n.toNat_lt (by decide)
  rw [write64_eq, readvarint64_eq, readvarintSlow_eq, Varint.decode_encode (by decide) fits,
    Option.map_some, Slice.from_append, UInt64.ofNat_toNat]

theorem readvarint32_write32 (n : UInt32) (pos : Nat) (rest : Bytes) :
    readvarint32 ⟨pos, write32 n ++ rest⟩ =
      .ok (some (n, ⟨pos + (write32 n).length, rest⟩)) := by
  have fits : n.toNat < 128 ^ 10 := lt_of_lt_of_le n.toNat_lt (by decide)
  have cut : (UInt64.ofNat n.toNat).toUInt32 = n := by
    apply UInt32.toNat_inj.mp
    have size := n.toNat_lt
    rw [UInt64.toNat_toUInt32, UInt64.toNat_ofNat']
    omega
  rw [write32_eq_ten, readvarint32_eq, readvarintSlow_eq, Varint.decode_encode (by decide) fits,
    Option.map_some, Option.map_some, Slice.from_append, cut]

/-- What the slow loop takes is at least as long as the shortest spelling of its value, and
of every value that is cut from it. -/
theorem shortest_of_slow {s t : Slice} {n : UInt64} {value : Nat}
    (found : readvarintSlow s = some (n, t)) (cut : value ≤ n.toNat) :
    (Varint.encode 10 value).length + t.data.length ≤ s.data.length := by
  rw [readvarintSlow_eq] at found
  rcases Option.map_eq_some_iff.mp found with ⟨⟨whole, rest⟩, spelled, equal⟩
  cases equal
  have wrapped : value ≤ whole := by
    refine cut.trans ?_
    rw [UInt64.toNat_ofNat']
    exact Nat.mod_le _ _
  exact le_trans (Nat.add_le_add_right (Varint.encode_length_mono wrapped) _)
    (Varint.encode_shortest spelled)

/-- What has been written is read back as it was, fits the room that is made for it, and no
spelling that is read as the same number is shorter. -/
theorem varint_roundTrip :
    (∀ n : UInt64, (write64 n).length ≤ 10 ∧
      (∀ pos rest, readvarint64 ⟨pos, write64 n ++ rest⟩ =
        .ok (some (n, ⟨pos + (write64 n).length, rest⟩))) ∧
      ∀ s t, readvarint64 s = .ok (some (n, t)) →
        (write64 n).length + t.data.length ≤ s.data.length) ∧
    ∀ n : UInt32, (write32 n).length ≤ 5 ∧
      (∀ pos rest, readvarint32 ⟨pos, write32 n ++ rest⟩ =
        .ok (some (n, ⟨pos + (write32 n).length, rest⟩))) ∧
      ∀ s t, readvarint32 s = .ok (some (n, t)) →
        (write32 n).length + t.data.length ≤ s.data.length := by
  refine ⟨fun n => ⟨?_, readvarint64_write64 n, fun s t found => ?_⟩,
    fun n => ⟨?_, readvarint32_write32 n, fun s t found => ?_⟩⟩
  · rw [write64_eq]
    exact Varint.encode_length_le 10 _
  · rw [readvarint64_eq] at found
    rw [write64_eq]
    exact shortest_of_slow (Except.ok.inj found) (le_refl _)
  · rw [write32_eq]
    exact Varint.encode_length_le 5 _
  · rw [readvarint32_eq] at found
    rcases Option.map_eq_some_iff.mp (Except.ok.inj found) with ⟨⟨whole, rest⟩, slow, equal⟩
    cases equal
    rw [write32_eq_ten]
    refine shortest_of_slow slow ?_
    rw [UInt64.toNat_toUInt32]
    exact Nat.mod_le _ _

end Writing

end CrossOver.Lua.Pb
