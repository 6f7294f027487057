import Mathlib.Data.Nat.ModEq
import Mathlib.Data.List.Basic
import Mathlib.Tactic.Ring

/-!
# Fixed-width big-endian naturals

Byte strings are lists of `UInt8`. A natural below `256 ^ width` has exactly one spelling of
`width` bytes, most significant first, and reading that spelling back gives the number.
-/

namespace Library

/-- A binary string. -/
abbrev Bytes := List UInt8

instance : LawfulBEq Bytes := inferInstance

/-- The `width` low-order bytes of a natural, most significant first. -/
def toBigEndian : (width : ℕ) → ℕ → Bytes
  | 0, _ => []
  | width + 1, n => UInt8.ofNat (n / 256 ^ width) :: toBigEndian width n

/-- Read bytes as one natural, most significant first. -/
def fromBigEndian (bytes : Bytes) : ℕ :=
  bytes.foldl (fun acc byte => acc * 256 + byte.toNat) 0

/-- A spelling has the requested width, whatever the number. -/
@[simp] theorem toBigEndian_length (width n : ℕ) : (toBigEndian width n).length = width := by
  induction width with
  | zero => rfl
  | succ width ih => simp [toBigEndian, ih]

/-- Reading a spelling after an accumulated prefix shifts the prefix and adds the low part. -/
private theorem foldl_toBigEndian (width acc n : ℕ) :
    (toBigEndian width n).foldl (fun acc byte => acc * 256 + byte.toNat) acc =
      acc * 256 ^ width + n % 256 ^ width := by
  induction width generalizing acc with
  | zero => simp [toBigEndian, Nat.mod_one]
  | succ width ih =>
    have hdigit : (UInt8.ofNat (n / 256 ^ width)).toNat = n / 256 ^ width % 256 := by
      simp
    have hsplit : n % 256 ^ (width + 1) =
        n % 256 ^ width + 256 ^ width * (n / 256 ^ width % 256) := by
      rw [pow_succ, Nat.mod_mul]
    rw [toBigEndian, List.foldl_cons, ih, hdigit, hsplit]
    ring

/-- A natural that fits its width survives being written and read back. -/
theorem fromBigEndian_toBigEndian {width n : ℕ} (h : n < 256 ^ width) :
    fromBigEndian (toBigEndian width n) = n := by
  rw [fromBigEndian, foldl_toBigEndian, Nat.zero_mul, Nat.zero_add, Nat.mod_eq_of_lt h]

/-- Reading after an accumulated prefix shifts the prefix. -/
private theorem foldl_bytes (acc : ℕ) (bytes : Bytes) :
    bytes.foldl (fun acc byte => acc * 256 + byte.toNat) acc =
      acc * 256 ^ bytes.length + fromBigEndian bytes := by
  induction bytes generalizing acc with
  | nil => simp [fromBigEndian]
  | cons byte bytes ih =>
    rw [fromBigEndian, List.foldl_cons, List.foldl_cons, ih, ih, List.length_cons, pow_succ]
    ring

/-- The first byte is the most significant. -/
theorem fromBigEndian_cons (byte : UInt8) (bytes : Bytes) :
    fromBigEndian (byte :: bytes) = byte.toNat * 256 ^ bytes.length + fromBigEndian bytes := by
  rw [fromBigEndian, List.foldl_cons, foldl_bytes, Nat.zero_mul, Nat.zero_add]

/-- A number that is read fits the bytes it was read from. -/
theorem fromBigEndian_lt (bytes : Bytes) : fromBigEndian bytes < 256 ^ bytes.length := by
  induction bytes with
  | nil => simp [fromBigEndian]
  | cons byte bytes ih =>
    have hbyte : byte.toNat ≤ 255 := Nat.le_of_lt_succ byte.toNat_lt
    rw [fromBigEndian_cons, List.length_cons, pow_succ]
    calc byte.toNat * 256 ^ bytes.length + fromBigEndian bytes
        < byte.toNat * 256 ^ bytes.length + 256 ^ bytes.length := Nat.add_lt_add_left ih _
      _ = (byte.toNat + 1) * 256 ^ bytes.length := by ring
      _ ≤ 256 * 256 ^ bytes.length := Nat.mul_le_mul_right _ (by omega)
      _ = 256 ^ bytes.length * 256 := Nat.mul_comm _ _

/-- Digits above the width do not matter. -/
theorem toBigEndian_mul_add (width high low : ℕ) :
    toBigEndian width (high * 256 ^ width + low) = toBigEndian width low := by
  induction width generalizing high with
  | zero => rfl
  | succ width ih =>
    have hshift : high * 256 ^ (width + 1) + low = high * 256 * 256 ^ width + low := by
      rw [pow_succ]
      ring
    have hdigit : UInt8.ofNat ((high * 256 * 256 ^ width + low) / 256 ^ width) =
        UInt8.ofNat (low / 256 ^ width) := by
      rw [Nat.add_comm, Nat.add_mul_div_right _ _ (Nat.pow_pos (by decide))]
      apply UInt8.toNat_inj.mp
      simp
    rw [hshift, toBigEndian, toBigEndian, ih, hdigit]

/-- Bytes survive being read as a number of their width. -/
theorem toBigEndian_fromBigEndian (bytes : Bytes) :
    toBigEndian bytes.length (fromBigEndian bytes) = bytes := by
  induction bytes with
  | nil => rfl
  | cons byte bytes ih =>
    have hdigit : (byte.toNat * 256 ^ bytes.length + fromBigEndian bytes) / 256 ^ bytes.length =
        byte.toNat := by
      rw [Nat.add_comm, Nat.add_mul_div_right _ _ (Nat.pow_pos (by decide)),
        Nat.div_eq_of_lt (fromBigEndian_lt bytes), Nat.zero_add]
    rw [fromBigEndian_cons, List.length_cons, toBigEndian, hdigit, toBigEndian_mul_add, ih,
      UInt8.ofNat_toNat]

end Library
