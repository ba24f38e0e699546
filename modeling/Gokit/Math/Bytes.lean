/-
# Byte strings

Numbers in network byte order and in little-endian order, and the bounds-checked
access to a byte slice.  The writer and the reader are inverse to one another on the
numbers that fit.
-/

import Gokit.Math.Store
import Mathlib.Tactic.Ring

namespace Gokit.Math

abbrev Bytes : Type := List UInt8

def byteAt (bts : Bytes) (i : Nat) : Exec UInt8 :=
  match bts[i]? with
  | some b => .ok b
  | none => .error .indexOutOfRange

/-- The first `n` bytes of a slice. -/
def sliceTo (bts : Bytes) (n : Nat) : Exec Bytes :=
  if n ≤ bts.length then .ok (bts.take n) else .error .indexOutOfRange

@[simp]
theorem byteAt_cons_zero (b : UInt8) (rest : Bytes) : byteAt (b :: rest) 0 = .ok b := rfl

@[simp]
theorem byteAt_cons_one (b c : UInt8) (rest : Bytes) : byteAt (b :: c :: rest) 1 = .ok c := rfl

theorem sliceTo_of_le {bts : Bytes} {n : Nat} (hle : n ≤ bts.length) :
    sliceTo bts n = .ok (bts.take n) := if_pos hle

/-- The `k` low bytes of a number, most significant first. -/
def putBigEndian : Nat → Nat → Bytes
  | 0, _ => []
  | k + 1, n => UInt8.ofNat (n / 256 ^ k) :: putBigEndian k n

/-- The number a byte string denotes, most significant byte first. -/
def bigEndian : Bytes → Nat
  | [] => 0
  | b :: rest => b.toNat * 256 ^ rest.length + bigEndian rest

@[simp]
theorem length_putBigEndian (k n : Nat) : (putBigEndian k n).length = k := by
  induction k with
  | zero => rfl
  | succ k ih => simp [putBigEndian, ih]

theorem bigEndian_putBigEndian_mod (k n : Nat) : bigEndian (putBigEndian k n) = n % 256 ^ k := by
  induction k with
  | zero => simp [putBigEndian, bigEndian, Nat.mod_one]
  | succ k ih =>
    have hsplit : n % 256 ^ (k + 1) = n % 256 ^ k + 256 ^ k * (n / 256 ^ k % 256) :=
      Nat.mod_pow_succ
    rw [putBigEndian, bigEndian, ih, length_putBigEndian, UInt8.toNat_ofNat', hsplit]
    ring

/-- **Reading back what was written**, for a number that fits in `k` bytes. -/
theorem bigEndian_putBigEndian {k n : Nat} (hfits : n < 256 ^ k) :
    bigEndian (putBigEndian k n) = n := by
  rw [bigEndian_putBigEndian_mod, Nat.mod_eq_of_lt hfits]

theorem bigEndian_lt (bts : Bytes) : bigEndian bts < 256 ^ bts.length := by
  induction bts with
  | nil => simp [bigEndian]
  | cons b rest ih =>
    have hb : b.toNat + 1 ≤ 256 := b.toNat_lt
    calc
      bigEndian (b :: rest) < b.toNat * 256 ^ rest.length + 256 ^ rest.length :=
        Nat.add_lt_add_left ih _
      _ = (b.toNat + 1) * 256 ^ rest.length := by ring
      _ ≤ 256 * 256 ^ rest.length := Nat.mul_le_mul_right _ hb
      _ = 256 ^ (b :: rest).length := by rw [List.length_cons, pow_succ, Nat.mul_comm]

/-- The `k` low bytes of a number, least significant first. -/
def putLittleEndian (k n : Nat) : Bytes := (putBigEndian k n).reverse

/-- The number a byte string denotes, least significant byte first. -/
def littleEndian (bts : Bytes) : Nat := bigEndian bts.reverse

@[simp]
theorem length_putLittleEndian (k n : Nat) : (putLittleEndian k n).length = k := by
  rw [putLittleEndian, List.length_reverse, length_putBigEndian]

theorem littleEndian_putLittleEndian {k n : Nat} (hfits : n < 256 ^ k) :
    littleEndian (putLittleEndian k n) = n := by
  rw [littleEndian, putLittleEndian, List.reverse_reverse, bigEndian_putBigEndian hfits]

end Gokit.Math
