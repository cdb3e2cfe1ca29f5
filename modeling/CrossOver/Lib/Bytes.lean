import Mathlib.Data.List.Basic
import Mathlib.Tactic.Ring
import Mathlib.Tactic.Common

/-!
# Little-endian words as byte lists

`leBytes width value` is what a copy of a fixed-width integer into a byte
buffer leaves there on a little-endian machine, and `leValue` is what reading
those bytes back gives.  The width is a parameter, so one round trip covers
every integer size.
-/

namespace CrossOver.Lib

abbrev Bytes := List UInt8

/-- The `width` low bytes of `value`, least significant first. -/
def leBytes : Nat → Nat → Bytes
  | 0, _ => []
  | width + 1, value => UInt8.ofNat value :: leBytes width (value / 256)

/-- The number whose little-endian bytes are given. -/
def leValue : Bytes → Nat
  | [] => 0
  | byte :: rest => byte.toNat + 256 * leValue rest

@[simp]
theorem leBytes_length (width value : Nat) : (leBytes width value).length = width := by
  induction width generalizing value with
  | zero => rfl
  | succ width inductionHypothesis => simp [leBytes, inductionHypothesis]

/-- Reading back a written word gives its value modulo the width. -/
theorem leValue_leBytes_mod (width value : Nat) :
    leValue (leBytes width value) = value % 256 ^ width := by
  induction width generalizing value with
  | zero => simp [leBytes, leValue, Nat.mod_one]
  | succ width inductionHypothesis =>
      have low : (UInt8.ofNat value).toNat = value % 256 := by simp
      rw [leBytes, leValue, inductionHypothesis, low, pow_succ, mul_comm (256 ^ width),
        Nat.mod_mul]

theorem leValue_leBytes {width value : Nat} (fits : value < 256 ^ width) :
    leValue (leBytes width value) = value := by
  rw [leValue_leBytes_mod, Nat.mod_eq_of_lt fits]

theorem leValue_lt (bytes : Bytes) : leValue bytes < 256 ^ bytes.length := by
  induction bytes with
  | nil => simp [leValue]
  | cons byte rest inductionHypothesis =>
      have bound := byte.toNat_lt
      simp only [leValue, List.length_cons, pow_succ]
      omega

theorem leValue_lt_of_length {bytes : Bytes} {width : Nat} (size : bytes.length = width) :
    leValue bytes < 256 ^ width := size ▸ leValue_lt bytes

/-- A word is determined by its bytes: writing what was read restores them. -/
theorem leBytes_leValue (bytes : Bytes) : leBytes bytes.length (leValue bytes) = bytes := by
  induction bytes with
  | nil => rfl
  | cons byte rest inductionHypothesis =>
      have bound := byte.toNat_lt
      have low : UInt8.ofNat (byte.toNat + 256 * leValue rest) = byte := by
        apply UInt8.toNat_inj.mp
        simp
      have high : (byte.toNat + 256 * leValue rest) / 256 = leValue rest := by omega
      simp only [List.length_cons, leBytes, leValue, low, high, inductionHypothesis]

end CrossOver.Lib
