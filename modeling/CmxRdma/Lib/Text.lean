import Mathlib.Data.List.Infix

/-!
Contract: text conversions of keys and names.

Owns: hexadecimal text and its round trip, and removing every copy of a pattern
from the front of a text.

Does not own: any particular key or pattern.
-/

namespace CmxRdma.Lib.Text

/-! ## Hexadecimal -/

/-- Two lower-case digits for each byte. -/
def hexEncode : List UInt8 → List Char
  | [] => []
  | byte :: rest =>
      Nat.digitChar (byte.toNat / 16) :: Nat.digitChar (byte.toNat % 16) :: hexEncode rest

/-- The value of a digit in either case. -/
def hexValue (digit : Char) : Option Nat :=
  if '0' ≤ digit ∧ digit ≤ '9' then some (digit.toNat - '0'.toNat)
  else if 'a' ≤ digit ∧ digit ≤ 'f' then some (digit.toNat - 'a'.toNat + 10)
  else if 'A' ≤ digit ∧ digit ≤ 'F' then some (digit.toNat - 'A'.toNat + 10)
  else none

/-- An even number of digits makes bytes; anything else is refused. -/
def hexDecode : List Char → Option (List UInt8)
  | [] => some []
  | [_] => none
  | high :: low :: rest => do
      let upper ← hexValue high
      let lower ← hexValue low
      let bytes ← hexDecode rest
      return UInt8.ofNat (16 * upper + lower) :: bytes

theorem hexValue_digitChar {value : Nat} (small : value < 16) :
    hexValue (Nat.digitChar value) = some value := by
  revert value
  decide

theorem hexDecode_hexEncode (bytes : List UInt8) : hexDecode (hexEncode bytes) = some bytes := by
  induction bytes with
  | nil => rfl
  | cons byte rest inductionHypothesis =>
      have bound : byte.toNat < 256 := byte.toNat_lt
      have upper := hexValue_digitChar (show byte.toNat / 16 < 16 by omega)
      have lower := hexValue_digitChar (show byte.toNat % 16 < 16 by omega)
      have joined : 16 * (byte.toNat / 16) + byte.toNat % 16 = byte.toNat :=
        Nat.div_add_mod byte.toNat 16
      simp only [hexEncode, hexDecode, upper, lower, inductionHypothesis, Option.bind_eq_bind,
        Option.bind_some, joined, UInt8.ofNat_toNat, pure]

theorem digitChar_ne_slash {value : Nat} (small : value < 16) : Nat.digitChar value ≠ '/' := by
  revert value
  decide

/-- Hexadecimal text has no slash in front. -/
theorem head?_hexEncode_ne_slash (bytes : List UInt8) : (hexEncode bytes).head? ≠ some '/' := by
  cases bytes with
  | nil => exact nofun
  | cons byte rest =>
      have bound : byte.toNat < 256 := byte.toNat_lt
      intro slash
      exact digitChar_ne_slash (show byte.toNat / 16 < 16 by omega) (Option.some.inj slash)

/-! ## Trimming -/

/-- Take the pattern off the front, at most `bound` times. -/
def trimStart (pattern : List Char) : Nat → List Char → List Char
  | 0, text => text
  | bound + 1, text =>
      if pattern <+: text then trimStart pattern bound (text.drop pattern.length) else text

/-- `str::trim_start_matches` for a pattern that is not empty: take it off the
front as often as it occurs there. -/
def trimStartMatches (pattern text : List Char) : List Char :=
  trimStart pattern text.length text

theorem trimStart_of_not_prefix {pattern text : List Char} (other : ¬ pattern <+: text)
    (bound : Nat) : trimStart pattern bound text = text := by
  cases bound with
  | zero => rfl
  | succ bound => rw [trimStart, if_neg other]

theorem trimStart_append (pattern text : List Char) (bound : Nat) :
    trimStart pattern (bound + 1) (pattern ++ text) = trimStart pattern bound text := by
  rw [trimStart, if_pos (List.prefix_append pattern text), List.drop_left]

theorem trimStart_length_le (pattern : List Char) (bound : Nat) (text : List Char) :
    (trimStart pattern bound text).length ≤ text.length := by
  induction bound generalizing text with
  | zero => exact Nat.le_refl _
  | succ bound inductionHypothesis =>
      rw [trimStart]
      split_ifs
      · refine (inductionHypothesis _).trans ?_
        rw [List.length_drop]
        exact Nat.sub_le _ _
      · exact Nat.le_refl _

theorem trimStartMatches_append_eq {pattern : List Char} (nonempty : pattern ≠ [])
    (text : List Char) :
    ∃ bound, text.length ≤ bound ∧
      trimStartMatches pattern (pattern ++ text) = trimStart pattern bound text := by
  have positive := List.length_pos_of_ne_nil nonempty
  have total : (pattern ++ text).length = (pattern.length + text.length - 1) + 1 := by
    rw [List.length_append]
    omega
  refine ⟨pattern.length + text.length - 1, by omega, ?_⟩
  rw [trimStartMatches, total, trimStart_append]

/-- One copy of the pattern in front of a text that does not start with it. -/
theorem trimStartMatches_append {pattern text : List Char} (nonempty : pattern ≠ [])
    (other : ¬ pattern <+: text) : trimStartMatches pattern (pattern ++ text) = text := by
  obtain ⟨bound, -, trimmed⟩ := trimStartMatches_append_eq nonempty text
  rw [trimmed, trimStart_of_not_prefix other]

/-- A text that starts with the pattern loses more than the copy in front of it. -/
theorem trimStartMatches_append_eq_iff {pattern : List Char} (nonempty : pattern ≠ [])
    (text : List Char) :
    trimStartMatches pattern (pattern ++ text) = text ↔ ¬ pattern <+: text := by
  refine ⟨?_, trimStartMatches_append nonempty⟩
  rintro same ⟨rest, rfl⟩
  have positive := List.length_pos_of_ne_nil nonempty
  obtain ⟨bound, enough, trimmed⟩ := trimStartMatches_append_eq nonempty (pattern ++ rest)
  rw [List.length_append] at enough
  obtain ⟨less, rfl⟩ : ∃ less, bound = less + 1 := ⟨bound - 1, by omega⟩
  rw [trimStart_append] at trimmed
  have shorter := trimStart_length_le pattern less rest
  rw [← trimmed, same, List.length_append] at shorter
  omega

end CmxRdma.Lib.Text
