import CmxRdma.Lib.Digest

/-!
Contract: what the model takes from outside the repository.

Owns: the kinds of Rust panic the modelled code can reach, the widths the
casts of the source use, and the parameters that stand for other crates and
for the build: the CRC of `crc32fast`, the digest of `sha2` and `hashlib`, the
padding bytes of a `repr(C)` struct, the overflow-check setting, and the largest
buffer the allocator grants.

Does not own: any property of these parameters; a result that needs one says
so in its hypotheses.
-/

namespace CmxRdma

/-- A `[u8; 16]` prefix hash. -/
def PrefixHash : Type := Vector UInt8 16
deriving DecidableEq

namespace PrefixHash

/-- The sixteen bytes in order. -/
def toBytes (prefixHash : PrefixHash) : List UInt8 := Vector.toList prefixHash

/-- `<[u8; 16]>::try_from`: exactly sixteen bytes make a hash. -/
def ofBytes? (bytes : List UInt8) : Option PrefixHash :=
  if size : bytes.length = 16 then some ⟨bytes.toArray, by simpa using size⟩ else none

/-- The hash whose bytes are all `byte`. -/
def ofByte (byte : UInt8) : PrefixHash := Vector.replicate 16 byte

@[simp] theorem toBytes_length (prefixHash : PrefixHash) : prefixHash.toBytes.length = 16 :=
  Vector.length_toList

theorem ofBytes?_toBytes (prefixHash : PrefixHash) :
    ofBytes? prefixHash.toBytes = some prefixHash := by
  rw [ofBytes?, dif_pos prefixHash.toBytes_length]
  rfl

theorem toBytes_injective : Function.Injective toBytes := by
  intro left right sameBytes
  have sameHash := congrArg ofBytes? sameBytes
  rwa [ofBytes?_toBytes, ofBytes?_toBytes, Option.some.injEq] at sameHash

end PrefixHash

/-- The bytes of a text: `str::as_bytes` in Rust, `str.encode()` in Python. -/
def utf8 (text : String) : List UInt8 := text.toUTF8.data.toList

theorem utf8_injective {left right : String} (same : utf8 left = utf8 right) : left = right := by
  rw [← String.toByteArray_inj]
  exact ByteArray.ext (Array.toList_inj.mp same)

/-- The ways a modelled Rust function can panic. -/
inductive Panic where
  | assertionFailed
  | indexOutOfBounds
  | arithmeticOverflow
  | capacityOverflow
deriving DecidableEq, Repr

/-- The value of an outcome that is known not to be a panic. -/
def returned {α : Type*} : (outcome : Except Panic α) → (∃ value, outcome = .ok value) → α
  | .ok value, _ => value
  | .error _, returns => False.elim (by simp at returns)

theorem returned_eq {α : Type*} {outcome : Except Panic α} {value : α}
    (returns : ∃ value, outcome = .ok value) (ok : outcome = .ok value) :
    returned outcome returns = value := by
  subst ok
  rfl

/-- `usize` is 64 bits wide on every deployment target. -/
def usizeBound : Nat := 2 ^ 64

/-- `isize::MAX`, the largest size of a Rust allocation. -/
def isizeMax : Nat := 2 ^ 63 - 1

/-- The external functions and build settings the modelled code runs with. -/
structure Platform where
  /-- `crc32fast::Hasher` over one buffer. -/
  crc32 : List UInt8 → UInt32
  /-- The full SHA-256 digest. -/
  sha256 : List UInt8 → Vector UInt8 32
  /-- The four padding bytes after `crc32` in a `BlockHeader`. Rust leaves them
  unspecified; every header carries its own generation, so a function of the
  header fields covers every choice a run can see. -/
  padding : UInt32 → UInt64 → UInt32 → UInt32
  /-- Whether integer overflow panics (debug profile) or wraps (release). -/
  overflowChecks : Bool
  /-- The largest buffer the global allocator grants: a larger one ends the
  process in `handle_alloc_error`. -/
  reservable : Nat
  /-- The addresses of a process are fewer than `isize::MAX / 2`. -/
  reservableLe : 2 * reservable ≤ isizeMax

/-! ## Concrete parameters -/

/-- The parameters of the concrete runs in this development: the real digests
and a release build on a machine that grants buffers up to 16 GiB. -/
def Platform.release : Platform where
  crc32 := Lib.Digest.crc32
  sha256 := Lib.Digest.sha256
  padding := fun _ _ _ => 0
  overflowChecks := false
  reservable := 2 ^ 34
  reservableLe := by decide

/-! ## Derived functions -/

/-- Digest truncated to its first 16 bytes, the `[..16]` of the source. -/
def Platform.sha256Truncated (platform : Platform) (bytes : List UInt8) : PrefixHash :=
  ((platform.sha256 bytes).take 16 : Vector UInt8 16)

/-- `usize` subtraction in the given build profile. -/
def usizeSub (overflowChecks : Bool) (left right : Nat) : Except Panic Nat :=
  if right ≤ left then .ok (left - right)
  else if overflowChecks then .error .arithmeticOverflow
  else .ok (left + usizeBound - right)

end CmxRdma
