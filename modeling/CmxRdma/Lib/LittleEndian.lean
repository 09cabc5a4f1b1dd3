import Mathlib.Data.List.Basic
import Mathlib.Tactic.Ring

/-!
Contract: fixed-width little-endian byte encodings of natural numbers.

Owns: the encoder, the decoder, the exact width and the round trip modulo
`256 ^ count`.

Does not own: any record layout.
-/

namespace CmxRdma.Lib.LittleEndian

/-- The `count` low bytes of `value`, least significant first. -/
def leBytes : Nat → Nat → List UInt8
  | 0, _ => []
  | count + 1, value => UInt8.ofNat value :: leBytes count (value / 256)

/-- The number a byte string spells, least significant byte first. -/
def leValue : List UInt8 → Nat
  | [] => 0
  | byte :: rest => byte.toNat + 256 * leValue rest

@[simp] theorem leBytes_length (count value : Nat) :
    (leBytes count value).length = count := by
  induction count generalizing value with
  | zero => rfl
  | succ count inductionHypothesis => simp [leBytes, inductionHypothesis]

/-- Decoding an encoding keeps exactly the bits that fit its width. -/
theorem leValue_leBytes (count value : Nat) :
    leValue (leBytes count value) = value % 256 ^ count := by
  induction count generalizing value with
  | zero => simp [leBytes, leValue, Nat.mod_one]
  | succ count inductionHypothesis =>
      have lowByte : (UInt8.ofNat value).toNat = value % 256 := by simp
      rw [leBytes, leValue, inductionHypothesis, lowByte, Nat.pow_succ', Nat.mod_mul]

theorem leValue_leBytes_of_lt {count value : Nat} (small : value < 256 ^ count) :
    leValue (leBytes count value) = value := by
  rw [leValue_leBytes, Nat.mod_eq_of_lt small]

theorem leValue_lt (bytes : List UInt8) : leValue bytes < 256 ^ bytes.length := by
  induction bytes with
  | nil => simp [leValue]
  | cons byte rest inductionHypothesis =>
      have small := byte.toNat_lt
      rw [leValue, List.length_cons, Nat.pow_succ']
      omega

theorem leValue_replicate_zero (count : Nat) : leValue (List.replicate count 0) = 0 := by
  induction count with
  | zero => rfl
  | succ count inductionHypothesis => simp [List.replicate_succ, leValue, inductionHypothesis]

end CmxRdma.Lib.LittleEndian
