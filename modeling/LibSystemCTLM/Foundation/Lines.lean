import LibSystemCTLM.Foundation.Instances
import Mathlib.Data.BitVec
import Mathlib.Data.Nat.Bitwise
import Mathlib.Tactic.Ring

/-!
# Lines of a byte address space

A space of `2 ^ w` byte addresses is cut into lines of `2 ^ k` bytes. `lineOf k a` clears the
low `k` bits of an address, as `a & ~(size - 1)` does, and `offsetOf k a` keeps only these, as
`a & (size - 1)` does. Every address is its line plus its offset (`lineOf_add_offsetOf`), the
bytes of a line are the line plus an offset below `2 ^ k` (`lineOf_add`, `offsetOf_add`), and
a run of bytes that stays below the end of its line stays in it (`lineOf_add_of_offset`).
Addresses wrap modulo `2 ^ w`, as machine addresses do.
-/

namespace LibSystemCTLM.Foundation

variable {w k : ℕ}

/-- The address of the line of `a`: `a & ~(2 ^ k - 1)`. -/
def lineOf (k : ℕ) (a : BitVec w) : BitVec w := a &&& ~~~(BitVec.ofNat w (2 ^ k - 1))

/-- The offset of `a` in its line: `a & (2 ^ k - 1)`. -/
def offsetOf (k : ℕ) (a : BitVec w) : ℕ := (a &&& BitVec.ofNat w (2 ^ k - 1)).toNat

theorem offsetOf_eq (hk : k ≤ w) (a : BitVec w) : offsetOf k a = a.toNat % 2 ^ k := by
  have hlt : 2 ^ k - 1 < 2 ^ w :=
    lt_of_lt_of_le (Nat.sub_lt (Nat.two_pow_pos k) one_pos) (Nat.pow_le_pow_right two_pos hk)
  rw [offsetOf, BitVec.toNat_and, BitVec.toNat_ofNat, Nat.mod_eq_of_lt hlt, Nat.and_two_pow_sub_one_eq_mod]

theorem offsetOf_lt (hk : k ≤ w) (a : BitVec w) : offsetOf k a < 2 ^ k := by
  rw [offsetOf_eq hk]
  exact Nat.mod_lt _ (Nat.two_pow_pos k)

/-- The line and the offset of an address have no bit in common and make up the address. -/
theorem lineOf_add_offset_bits (k : ℕ) (a : BitVec w) : lineOf k a + (a &&& BitVec.ofNat w (2 ^ k - 1)) = a := by
  rw [lineOf, BitVec.add_eq_or_of_and_eq_zero]
  · ext i hi
    simp only [BitVec.getElem_or, BitVec.getElem_and, BitVec.getElem_not]
    cases a[i] <;> simp
  · ext i hi
    simp only [BitVec.getElem_and, BitVec.getElem_not, BitVec.getElem_zero]
    cases a[i] <;> simp

theorem lineOf_add_offsetOf (k : ℕ) (a : BitVec w) : lineOf k a + BitVec.ofNat w (offsetOf k a) = a := by
  rw [offsetOf, BitVec.ofNat_toNat, BitVec.setWidth_eq]
  exact lineOf_add_offset_bits k a

theorem toNat_lineOf (hk : k ≤ w) (a : BitVec w) : (lineOf k a).toNat = a.toNat / 2 ^ k * 2 ^ k := by
  have hsub : lineOf k a = a - (a &&& BitVec.ofNat w (2 ^ k - 1)) :=
    BitVec.eq_sub_iff_add_eq.2 (lineOf_add_offset_bits k a)
  have hoff : (a &&& BitVec.ofNat w (2 ^ k - 1)).toNat = a.toNat % 2 ^ k := offsetOf_eq hk a
  have hle : a.toNat % 2 ^ k ≤ a.toNat := Nat.mod_le _ _
  have hdiv := Nat.div_add_mod a.toNat (2 ^ k)
  rw [hsub, BitVec.toNat_sub_of_le (by rw [BitVec.le_def, hoff]; exact hle), hoff, Nat.mul_comm]
  omega

theorem toNat_lineOf_add (hk : k ≤ w) (a : BitVec w) {i : ℕ} (hi : i < 2 ^ k) :
    (lineOf k a + BitVec.ofNat w i).toNat = a.toNat / 2 ^ k * 2 ^ k + i := by
  have hlt : a.toNat / 2 ^ k < 2 ^ (w - k) := by
    rw [Nat.div_lt_iff_lt_mul (Nat.two_pow_pos k), ← Nat.pow_add, Nat.sub_add_cancel hk]
    exact a.isLt
  have hpow : 2 ^ w = 2 ^ (w - k) * 2 ^ k := by rw [← Nat.pow_add, Nat.sub_add_cancel hk]
  have hmul : (a.toNat / 2 ^ k + 1) * 2 ^ k ≤ 2 ^ (w - k) * 2 ^ k := Nat.mul_le_mul_right _ hlt
  have hsum : a.toNat / 2 ^ k * 2 ^ k + i < 2 ^ w := by
    rw [hpow]
    rw [Nat.add_mul, Nat.one_mul] at hmul
    omega
  rw [BitVec.toNat_add, toNat_lineOf hk, BitVec.toNat_ofNat, Nat.add_mod_mod, Nat.mod_eq_of_lt hsum]

/-- A byte of the line of `a` has that line. -/
theorem lineOf_add (hk : k ≤ w) (a : BitVec w) {i : ℕ} (hi : i < 2 ^ k) :
    lineOf k (lineOf k a + BitVec.ofNat w i) = lineOf k a := by
  apply BitVec.eq_of_toNat_eq
  rw [toNat_lineOf hk, toNat_lineOf_add hk a hi, toNat_lineOf hk, Nat.mul_comm (a.toNat / 2 ^ k),
    Nat.mul_add_div (Nat.two_pow_pos k), Nat.div_eq_of_lt hi, Nat.add_zero, Nat.mul_comm]

/-- A byte of the line of `a` has the offset it was given. -/
theorem offsetOf_add (hk : k ≤ w) (a : BitVec w) {i : ℕ} (hi : i < 2 ^ k) :
    offsetOf k (lineOf k a + BitVec.ofNat w i) = i := by
  rw [offsetOf_eq hk, toNat_lineOf_add hk a hi, Nat.mul_comm, Nat.mul_add_mod, Nat.mod_eq_of_lt hi]

@[simp] theorem lineOf_lineOf (k : ℕ) (a : BitVec w) : lineOf k (lineOf k a) = lineOf k a := by
  rw [lineOf, lineOf, BitVec.and_assoc, BitVec.and_self]

theorem offsetOf_lineOf (hk : k ≤ w) (a : BitVec w) : offsetOf k (lineOf k a) = 0 := by
  have h := offsetOf_add hk a (Nat.two_pow_pos k)
  rwa [BitVec.add_zero] at h

/-- An address with offset `0` is its own line. -/
theorem lineOf_of_offset_zero {a : BitVec w} (h : offsetOf k a = 0) : lineOf k a = a := by
  have hsum := lineOf_add_offsetOf k a
  rwa [h, BitVec.add_zero] at hsum

/-- Whole lines behind a line there is a line. -/
theorem lineOf_add_mul (hk : k ≤ w) (a : BitVec w) (q : ℕ) :
    lineOf k (lineOf k a + BitVec.ofNat w (q * 2 ^ k)) = lineOf k a + BitVec.ofNat w (q * 2 ^ k) := by
  apply lineOf_of_offset_zero
  have hdvd : 2 ^ k ∣ 2 ^ w := Nat.pow_dvd_pow 2 hk
  rw [offsetOf_eq hk, BitVec.toNat_add, BitVec.toNat_ofNat, Nat.add_mod_mod, Nat.mod_mod_of_dvd _ hdvd, toNat_lineOf hk, ← Nat.add_mul,
    Nat.mul_mod_left]

/-- The line of a byte that lies `m` bytes behind the beginning of a line. -/
theorem lineOf_add_nat (hk : k ≤ w) (a : BitVec w) (m : ℕ) :
    lineOf k (lineOf k a + BitVec.ofNat w m) = lineOf k a + BitVec.ofNat w (m / 2 ^ k * 2 ^ k) := by
  have hm : lineOf k a + BitVec.ofNat w m = lineOf k (lineOf k a + BitVec.ofNat w (m / 2 ^ k * 2 ^ k)) + BitVec.ofNat w (m % 2 ^ k) := by
    rw [lineOf_add_mul hk, BitVec.add_assoc, ← BitVec.ofNat_add, Nat.mul_comm, Nat.div_add_mod]
  rw [hm, lineOf_add hk _ (Nat.mod_lt _ (Nat.two_pow_pos k)), lineOf_add_mul hk]

/-- `a + i` is the byte at offset `offsetOf a + i` counted from the line of `a`. -/
theorem add_eq_lineOf_add (k : ℕ) (a : BitVec w) (i : ℕ) :
    a + BitVec.ofNat w i = lineOf k a + BitVec.ofNat w (offsetOf k a + i) := by
  rw [BitVec.ofNat_add, ← BitVec.add_assoc, lineOf_add_offsetOf]

/-- A run of bytes from `a` stays in the line of `a` as long as it stays below its end. -/
theorem lineOf_add_of_offset (hk : k ≤ w) (a : BitVec w) {i : ℕ} (hi : offsetOf k a + i < 2 ^ k) :
    lineOf k (a + BitVec.ofNat w i) = lineOf k a := by
  rw [add_eq_lineOf_add k, lineOf_add hk a hi]

theorem offsetOf_add_of_offset (hk : k ≤ w) (a : BitVec w) {i : ℕ} (hi : offsetOf k a + i < 2 ^ k) :
    offsetOf k (a + BitVec.ofNat w i) = offsetOf k a + i := by
  rw [add_eq_lineOf_add k, offsetOf_add hk a hi]

/-- How far `x` lies behind `a`, when `x` is a byte of the same line at or behind `a`. -/
theorem toNat_sub_of_sameLine (hk : k ≤ w) {a x : BitVec w} (hl : lineOf k x = lineOf k a)
    (hle : offsetOf k a ≤ offsetOf k x) : (x - a).toNat = offsetOf k x - offsetOf k a := by
  have hlt : offsetOf k x - offsetOf k a < 2 ^ w := by
    have h₁ := offsetOf_lt hk x
    have h₂ : 2 ^ k ≤ 2 ^ w := Nat.pow_le_pow_right two_pos hk
    omega
  have hx : x = a + BitVec.ofNat w (offsetOf k x - offsetOf k a) := by
    rw [add_eq_lineOf_add k a, ← hl, show offsetOf k a + (offsetOf k x - offsetOf k a) = offsetOf k x by omega,
      lineOf_add_offsetOf]
  have hsub : x - a = BitVec.ofNat w (offsetOf k x - offsetOf k a) := by
    conv_lhs => rw [hx]
    rw [BitVec.add_comm, BitVec.add_sub_cancel]
  rw [hsub, BitVec.toNat_ofNat, Nat.mod_eq_of_lt hlt]

end LibSystemCTLM.Foundation
