import Mathlib.Algebra.Ring.Parity
import Mathlib.Data.Nat.Bitwise
import CmxRdma.Lib.Digest

/-!
Contract: CRC-32 tells byte strings apart that differ in a short burst.

Owns: the register after a byte string, its linearity in exclusive or, that no
shift of the register loses anything, and that byte strings which differ only
within four consecutive bytes have different checksums.

Does not own: longer bursts, which can collide.
-/

namespace CmxRdma.Lib.Crc32

open CmxRdma.Lib.Digest

/-! ## One bit -/

theorem and_one_eq_one_iff (register : UInt32) : register &&& 1 = 1 ↔ register.toNat % 2 = 1 := by
  rw [← UInt32.toNat_inj, UInt32.toNat_and]
  simp

theorem toNat_shiftRight_one (register : UInt32) : (register >>> 1).toNat = register.toNat / 2 := by
  simp [UInt32.toNat_shiftRight, Nat.shiftRight_eq_div_pow]

theorem crc32Shift_of_odd {register : UInt32} (odd : register.toNat % 2 = 1) :
    crc32Shift register = (register >>> 1) ^^^ 0xEDB88320 := by
  rw [crc32Shift, if_pos ((and_one_eq_one_iff register).mpr odd)]

theorem crc32Shift_of_even {register : UInt32} (even : register.toNat % 2 = 0) :
    crc32Shift register = register >>> 1 := by
  rw [crc32Shift, if_neg]
  rw [and_one_eq_one_iff]
  omega

/-- The shift is linear: the low bits add up, and the polynomial cancels where both
are set. -/
theorem crc32Shift_xor (left right : UInt32) :
    crc32Shift (left ^^^ right) = crc32Shift left ^^^ crc32Shift right := by
  have lowBit : (left ^^^ right).toNat % 2 = (left.toNat + right.toNat) % 2 := by
    rw [UInt32.toNat_xor, Nat.xor_mod_two_eq]
  have shifted : (left ^^^ right) >>> 1 = left >>> 1 ^^^ right >>> 1 := UInt32.shiftRight_xor
  rcases Nat.mod_two_eq_zero_or_one left.toNat with leftEven | leftOdd
  · rcases Nat.mod_two_eq_zero_or_one right.toNat with rightEven | rightOdd
    · rw [crc32Shift_of_even (by omega), crc32Shift_of_even leftEven,
        crc32Shift_of_even rightEven, shifted]
    · rw [crc32Shift_of_odd (by omega), crc32Shift_of_even leftEven, crc32Shift_of_odd rightOdd,
        shifted, UInt32.xor_assoc]
  · rcases Nat.mod_two_eq_zero_or_one right.toNat with rightEven | rightOdd
    · rw [crc32Shift_of_odd (by omega), crc32Shift_of_odd leftOdd, crc32Shift_of_even rightEven,
        shifted]
      ac_rfl
    · have cancelled : ∀ first second polynomial : UInt32,
          first ^^^ polynomial ^^^ (second ^^^ polynomial) = first ^^^ second := by
        intro first second polynomial
        rw [UInt32.xor_comm second, UInt32.xor_assoc, ← UInt32.xor_assoc polynomial,
          UInt32.xor_self, UInt32.zero_xor]
      rw [crc32Shift_of_even (by omega), crc32Shift_of_odd leftOdd, crc32Shift_of_odd rightOdd,
        shifted, cancelled]

/-- The top bit of the polynomial remembers the bit that was shifted out. -/
theorem crc32Shift_eq_zero {register : UInt32} (zero : crc32Shift register = 0) : register = 0 := by
  have half := toNat_shiftRight_one register
  have small := register.toNat_lt
  rcases Nat.mod_two_eq_zero_or_one register.toNat with even | odd
  · rw [crc32Shift_of_even even] at zero
    rw [zero] at half
    rw [← UInt32.toNat_inj]
    have zeroNat : (0 : UInt32).toNat = 0 := rfl
    omega
  · rw [crc32Shift_of_odd odd, UInt32.xor_eq_zero_iff] at zero
    rw [zero] at half
    have polynomial : (0xEDB88320 : UInt32).toNat = 0xEDB88320 := rfl
    omega

theorem crc32Shift_injective : Function.Injective crc32Shift := by
  intro left right same
  have difference : crc32Shift (left ^^^ right) = 0 := by
    rw [crc32Shift_xor, same, UInt32.xor_self]
  exact UInt32.xor_eq_zero_iff.mp (crc32Shift_eq_zero difference)

/-! ## Several bits -/

theorem iterate_crc32Shift_xor (count : Nat) (left right : UInt32) :
    crc32Shift^[count] (left ^^^ right) = crc32Shift^[count] left ^^^ crc32Shift^[count] right := by
  induction count generalizing left right with
  | zero => rfl
  | succ count inductionHypothesis =>
      rw [Function.iterate_succ_apply, crc32Shift_xor, inductionHypothesis]
      rfl

/-- A value that fits below the register's top passes down unchanged. -/
theorem iterate_crc32Shift_of_toNat_eq {count : Nat} {value shifted : UInt32}
    (raised : shifted.toNat = value.toNat * 2 ^ count) : crc32Shift^[count] shifted = value := by
  induction count generalizing shifted with
  | zero =>
      rw [← UInt32.toNat_inj]
      simpa using raised
  | succ count inductionHypothesis =>
      rw [Nat.pow_succ, ← Nat.mul_assoc] at raised
      rw [Function.iterate_succ_apply, crc32Shift_of_even (by omega)]
      apply inductionHypothesis
      rw [toNat_shiftRight_one]
      omega

/-! ## Byte strings -/

/-- The register after the bytes, from any start. -/
def advance (start : UInt32) (bytes : List UInt8) : UInt32 :=
  bytes.foldl (fun register byte => crc32Shift^[8] (register ^^^ byte.toUInt32)) start

theorem advance_cons (start : UInt32) (byte : UInt8) (rest : List UInt8) :
    advance start (byte :: rest) = advance (crc32Shift^[8] (start ^^^ byte.toUInt32)) rest := rfl

theorem advance_append (start : UInt32) (front rest : List UInt8) :
    advance start (front ++ rest) = advance (advance start front) rest :=
  List.foldl_append

theorem advance_injective (bytes : List UInt8) :
    Function.Injective fun start => advance start bytes := by
  induction bytes with
  | nil => exact fun _ _ same => same
  | cons byte rest inductionHypothesis =>
      intro left right same
      have sameRegister := crc32Shift_injective.iterate 8 (inductionHypothesis same)
      exact (UInt32.xor_left_inj _).mp sameRegister

/-- The register is linear in start and bytes together. -/
theorem advance_xor {left right : List UInt8} (sameLength : left.length = right.length)
    (leftStart rightStart : UInt32) :
    advance (leftStart ^^^ rightStart) (List.zipWith (· ^^^ ·) left right) =
      advance leftStart left ^^^ advance rightStart right := by
  induction left generalizing right leftStart rightStart with
  | nil =>
      obtain rfl := List.length_eq_zero_iff.mp sameLength.symm
      rfl
  | cons byte rest inductionHypothesis =>
      cases right with
      | nil => cases sameLength
      | cons other others =>
          have regrouped : leftStart ^^^ rightStart ^^^ (byte ^^^ other).toUInt32 =
              (leftStart ^^^ byte.toUInt32) ^^^ (rightStart ^^^ other.toUInt32) := by
            rw [UInt8.toUInt32_xor]
            ac_rfl
          rw [List.zipWith_cons_cons, advance_cons, regrouped, iterate_crc32Shift_xor]
          exact inductionHypothesis (Nat.succ.inj sameLength) _ _

/-- What eight shifts bring to a small value was that value, eight bits higher. -/
theorem toNat_of_iterate_lt {register : UInt32}
    (small : (crc32Shift^[8] register).toNat < 2 ^ 24) :
    register.toNat = (crc32Shift^[8] register).toNat * 2 ^ 8 := by
  have raised : (UInt32.ofNat ((crc32Shift^[8] register).toNat * 2 ^ 8)).toNat =
      (crc32Shift^[8] register).toNat * 2 ^ 8 :=
    UInt32.toNat_ofNat_of_lt' (by rw [UInt32.size]; omega)
  have same := crc32Shift_injective.iterate 8 (iterate_crc32Shift_of_toNat_eq raised)
  rw [← raised, same]

/-- Few bytes that bring the register to zero leave it small before them: each byte
can only clear eight bits. -/
theorem toNat_lt_of_advance_eq_zero {start : UInt32} {bytes : List UInt8}
    (short : bytes.length ≤ 4) (cleared : advance start bytes = 0) :
    start.toNat < 2 ^ (8 * bytes.length) := by
  induction bytes generalizing start with
  | nil =>
      have zero : start = 0 := cleared
      simp [zero]
  | cons byte rest inductionHypothesis =>
      rw [List.length_cons] at short ⊢
      have after := inductionHypothesis (by omega) cleared
      have small : 2 ^ (8 * rest.length) ≤ 2 ^ 24 := Nat.pow_le_pow_right (by omega) (by omega)
      have before := toNat_of_iterate_lt (after.trans_le small)
      have restored : start = (start ^^^ byte.toUInt32) ^^^ byte.toUInt32 := by
        rw [UInt32.xor_assoc, UInt32.xor_self, UInt32.xor_zero]
      have byteSmall : byte.toUInt32.toNat < 2 ^ 8 := by
        rw [UInt8.toNat_toUInt32]
        exact byte.toNat_lt
      rw [restored, UInt32.toNat_xor]
      apply Nat.xor_lt_two_pow
      · rw [before, Nat.mul_succ, Nat.pow_add]
        exact Nat.mul_lt_mul_of_pos_right after (by decide)
      · exact byteSmall.trans_le (Nat.pow_le_pow_right (by omega) (by omega))

theorem eq_zero_of_advance_eq_zero {bytes : List UInt8} (short : bytes.length ≤ 4)
    (cleared : advance 0 bytes = 0) : ∀ byte ∈ bytes, byte = 0 := by
  induction bytes with
  | nil => simp
  | cons byte rest inductionHypothesis =>
      rw [List.length_cons] at short
      rw [advance_cons, UInt32.zero_xor] at cleared
      have after := toNat_lt_of_advance_eq_zero (by omega) cleared
      have small : 2 ^ (8 * rest.length) ≤ 2 ^ 24 := Nat.pow_le_pow_right (by omega) (by omega)
      have before := toNat_of_iterate_lt (after.trans_le small)
      -- the byte is a multiple of 256
      have byteSmall := byte.toNat_lt
      rw [UInt8.toNat_toUInt32] at before
      have byteZero : byte = 0 := by
        rw [← UInt8.toNat_inj]
        have zeroNat : (0 : UInt8).toNat = 0 := rfl
        omega
      have registerZero : crc32Shift^[8] byte.toUInt32 = 0 := by
        rw [← UInt32.toNat_inj]
        have zeroNat : (0 : UInt32).toNat = 0 := rfl
        omega
      rw [registerZero] at cleared
      exact List.forall_mem_cons.mpr ⟨byteZero, inductionHypothesis (by omega) cleared⟩

/-- Up to four bytes are told apart from any register. -/
theorem eq_of_advance_eq {start : UInt32} {left right : List UInt8}
    (sameLength : left.length = right.length) (short : left.length ≤ 4)
    (same : advance start left = advance start right) : left = right := by
  have cleared : advance 0 (List.zipWith (· ^^^ ·) left right) = 0 := by
    have linear := advance_xor sameLength start start
    rwa [UInt32.xor_self, same, UInt32.xor_self] at linear
  have width : (List.zipWith (· ^^^ ·) left right).length = left.length := by
    rw [List.length_zipWith, sameLength, min_self]
  have zeros := eq_zero_of_advance_eq_zero (width.trans_le short) cleared
  apply List.ext_getElem sameLength
  intro index leftBound rightBound
  have zero := zeros _ (List.getElem_mem (width.symm ▸ leftBound))
  rwa [List.getElem_zipWith, UInt8.xor_eq_zero_iff] at zero

/-- Byte strings of one length that agree outside a window of four bytes have
different checksums if they differ at all. -/
theorem crc32_ne_of_window {left right : List UInt8} (start : Nat)
    (sameLength : left.length = right.length) (front : left.take start = right.take start)
    (back : left.drop (start + 4) = right.drop (start + 4)) (different : left ≠ right) :
    crc32 left ≠ crc32 right := by
  intro sameSum
  have split : ∀ bytes : List UInt8,
      bytes = bytes.take start ++ ((bytes.drop start).take 4 ++ bytes.drop (start + 4)) := by
    intro bytes
    rw [← List.drop_drop, List.take_append_drop, List.take_append_drop]
  have sameRegister : advance 0xFFFFFFFF left = advance 0xFFFFFFFF right :=
    (UInt32.xor_left_inj _).mp sameSum
  rw [split left, split right, front, back, advance_append, advance_append, advance_append,
    advance_append] at sameRegister
  have sameWindow := eq_of_advance_eq (by simp [sameLength]) (List.length_take_le _ _)
    (advance_injective _ sameRegister)
  apply different
  rw [split left, split right, front, back, sameWindow]

end CmxRdma.Lib.Crc32
