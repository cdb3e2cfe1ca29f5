import CrossOver.Lib.Bytes

/-!
# Numbers in base 128

Digits of seven bits, the least significant first; every byte but the last has its high
bit set.  `limit` is how many bytes there may be.  `decode` takes any spelling of a
number, with zeros at the end too, and `encode` writes the shortest.
-/

namespace CrossOver.Lib.Varint

open CrossOver.Lib

def encode : Nat → Nat → Bytes
  | 0, _ => []
  | limit + 1, value =>
      if value < 128 then [UInt8.ofNat value]
      else UInt8.ofNat (value % 128 + 128) :: encode limit (value / 128)

/-- The number in front, and what is behind it. -/
def decode : Nat → Bytes → Option (Nat × Bytes)
  | 0, _ => none
  | _ + 1, [] => none
  | limit + 1, byte :: rest =>
      if byte.toNat < 128 then some (byte.toNat, rest)
      else (decode limit rest).map fun found => (byte.toNat - 128 + 128 * found.1, found.2)

theorem decode_last {limit : Nat} {byte : UInt8} (last : byte.toNat < 128) (rest : Bytes) :
    decode (limit + 1) (byte :: rest) = some (byte.toNat, rest) := if_pos last

theorem decode_more {limit : Nat} {byte : UInt8} (more : ¬ byte.toNat < 128) (rest : Bytes) :
    decode (limit + 1) (byte :: rest) =
      (decode limit rest).map fun found => (byte.toNat - 128 + 128 * found.1, found.2) :=
  if_neg more

theorem decode_encode {limit value : Nat} (positive : 0 < limit) (fits : value < 128 ^ limit)
    (rest : Bytes) : decode limit (encode limit value ++ rest) = some (value, rest) := by
  induction limit generalizing value with
  | zero => exact absurd positive (lt_irrefl 0)
  | succ limit inductionHypothesis =>
      by_cases small : value < 128
      · have byte : (UInt8.ofNat value).toNat = value := by
          rw [UInt8.toNat_ofNat', Nat.mod_eq_of_lt (by omega)]
        rw [encode, if_pos small, List.singleton_append, decode_last (byte.trans_lt small), byte]
      · have byte : (UInt8.ofNat (value % 128 + 128)).toNat = value % 128 + 128 := by
          rw [UInt8.toNat_ofNat', Nat.mod_eq_of_lt (by omega)]
        have quotient : value / 128 < 128 ^ limit := by
          apply Nat.div_lt_of_lt_mul
          rwa [pow_succ, mul_comm] at fits
        have left : 0 < limit := by
          by_contra none'
          rw [Nat.eq_zero_of_not_pos none', pow_zero] at quotient
          omega
        rw [encode, if_neg small, List.cons_append, decode_more (by omega),
          inductionHypothesis left quotient, byte]
        simp only [Option.map_some, Option.some.injEq, Prod.mk.injEq, and_true]
        omega

theorem encode_length_le (limit value : Nat) : (encode limit value).length ≤ limit := by
  induction limit generalizing value with
  | zero => exact le_refl 0
  | succ limit inductionHypothesis =>
      rw [encode]
      split
      · exact Nat.succ_le_succ (Nat.zero_le limit)
      · exact Nat.succ_le_succ (inductionHypothesis (value / 128))

theorem encode_length_mono {limit small large : Nat} (order : small ≤ large) :
    (encode limit small).length ≤ (encode limit large).length := by
  induction limit generalizing small large with
  | zero => exact le_refl 0
  | succ limit inductionHypothesis =>
      rw [encode, encode]
      by_cases short : small < 128
      · rw [if_pos short]
        split
        · exact le_refl 1
        · exact Nat.succ_le_succ (Nat.zero_le _)
      · rw [if_neg short, if_neg (by omega)]
        exact Nat.succ_le_succ (inductionHypothesis (Nat.div_le_div_right order))

theorem encode_room {limit more value : Nat} (fits : value < 128 ^ limit) (room : limit ≤ more)
    (positive : 0 < limit) : encode more value = encode limit value := by
  induction limit generalizing more value with
  | zero => exact absurd positive (lt_irrefl 0)
  | succ limit inductionHypothesis =>
      cases more with
      | zero => omega
      | succ more =>
          rw [encode, encode]
          by_cases small : value < 128
          · rw [if_pos small, if_pos small]
          · have quotient : value / 128 < 128 ^ limit := by
              apply Nat.div_lt_of_lt_mul
              rwa [pow_succ, mul_comm] at fits
            have left : 0 < limit := by
              by_contra none'
              rw [Nat.eq_zero_of_not_pos none', pow_zero] at quotient
              omega
            rw [if_neg small, if_neg small,
              inductionHypothesis quotient (Nat.le_of_succ_le_succ room) left]

theorem encode_ne_nil {limit : Nat} (positive : 0 < limit) (value : Nat) :
    encode limit value ≠ [] := by
  cases limit with
  | zero => exact absurd positive (lt_irrefl 0)
  | succ limit =>
      rw [encode]
      split <;> exact List.cons_ne_nil _ _

/-- A number is read from its own bytes and nothing else. -/
theorem decode_append {limit value : Nat} {bytes rest : Bytes}
    (found : decode limit bytes = some (value, rest)) :
    ∃ digits, bytes = digits ++ rest ∧ digits ≠ [] ∧ digits.length ≤ limit ∧
      value < 128 ^ digits.length ∧
      ∀ more, decode limit (digits ++ more) = some (value, more) := by
  induction limit generalizing bytes value with
  | zero => cases found
  | succ limit inductionHypothesis =>
      cases bytes with
      | nil => cases found
      | cons byte tail =>
          by_cases last : byte.toNat < 128
          · rw [decode_last last] at found
            cases found
            exact ⟨[byte], rfl, List.cons_ne_nil _ _, Nat.succ_le_succ (Nat.zero_le _), last,
              fun more => decode_last last more⟩
          · rw [decode_more last] at found
            rcases Option.map_eq_some_iff.mp found with ⟨⟨inner, after⟩, inside, equal⟩
            cases equal
            rcases inductionHypothesis inside with ⟨digits, rfl, -, short, bound, same⟩
            refine ⟨byte :: digits, rfl, List.cons_ne_nil _ _, Nat.succ_le_succ short, ?_, ?_⟩
            · have size := byte.toNat_lt
              rw [List.length_cons, pow_succ]
              omega
            · intro more
              rw [List.cons_append, decode_more last, same more]
              rfl

theorem decode_shorter {limit value : Nat} {bytes rest : Bytes}
    (found : decode limit bytes = some (value, rest)) : rest.length < bytes.length := by
  rcases decode_append found with ⟨digits, rfl, nonempty, -⟩
  rw [List.length_append]
  have positive := List.length_pos_of_ne_nil nonempty
  omega

theorem encode_shortest {limit value : Nat} {bytes rest : Bytes}
    (found : decode limit bytes = some (value, rest)) :
    (encode limit value).length + rest.length ≤ bytes.length := by
  induction limit generalizing bytes value with
  | zero => cases found
  | succ limit inductionHypothesis =>
      cases bytes with
      | nil => cases found
      | cons byte tail =>
          rw [encode]
          by_cases last : byte.toNat < 128
          · rw [decode_last last] at found
            cases found
            rw [if_pos last, List.length_singleton, List.length_cons]
            omega
          · rw [decode_more last] at found
            rcases Option.map_eq_some_iff.mp found with ⟨⟨inner, after⟩, inside, equal⟩
            cases equal
            have size := byte.toNat_lt
            have shorter := inductionHypothesis inside
            split
            · have positive := decode_shorter inside
              simp only [List.length_cons, List.length_nil]
              omega
            · rename_i large
              have quotient : (byte.toNat - 128 + 128 * inner) / 128 = inner := by omega
              rw [quotient, List.length_cons, List.length_cons]
              omega

/-- A number ends within the limit, or is not read. -/
theorem decode_isSome_iff {limit : Nat} {bytes : Bytes} :
    (decode limit bytes).isSome = true ↔ ∃ byte ∈ bytes.take limit, byte.toNat < 128 := by
  induction limit generalizing bytes with
  | zero => simp [decode]
  | succ limit inductionHypothesis =>
      cases bytes with
      | nil => simp [decode]
      | cons byte tail =>
          rw [List.take_succ_cons]
          by_cases last : byte.toNat < 128
          · rw [decode_last last]
            exact iff_of_true rfl ⟨byte, List.mem_cons_self .., last⟩
          · rw [decode_more last, Option.isSome_map, inductionHypothesis]
            simp [last]

end CrossOver.Lib.Varint
