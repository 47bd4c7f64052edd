import LibSystemCTLM.Foundation.Instances
import Mathlib.Data.BitVec

/-!
# Ranges of addresses

A range is an address and a length, of a space of `2 ^ w` addresses. Its addresses are those that lie less than the
length above its first one, modulo `2 ^ w`. `inRange` is the usual comparison with both ends instead, which is the
same for a range that ends below the end of the space (`inRange_iff`), and finds no address in one that reaches it.
Of two ranges with a common address, one has the first of the other (`inRange_of_touches`).
-/

namespace LibSystemCTLM.Foundation

variable {w : ℕ}

structure Range (w : ℕ) where
  addr : BitVec w := 0
  len : ℕ := 0
  deriving DecidableEq

namespace Range

variable (r r' : Range w) {a : BitVec w}

/-- `a >= addr && a < addr + len`. -/
def inRange (a : BitVec w) : Bool := decide (r.addr ≤ a ∧ a < r.addr + BitVec.ofNat w r.len)

/-- The last address, or the one before the range if it is empty. -/
def last : BitVec w := r.addr + BitVec.ofNat w r.len - 1

/-- Comparing the ends of two ranges. -/
def overlaps : Bool := r.inRange r'.addr || r.inRange r'.last || r'.inRange r.addr

def Has (a : BitVec w) : Prop := (a - r.addr).toNat < r.len

instance : Decidable (r.Has a) := inferInstanceAs (Decidable (_ < _))

def Touches : Prop := ∃ a, r.Has a ∧ r'.Has a

def Apart : Prop := ¬r.Touches r'

/-- The range ends below the end of the space. -/
def Fits : Prop := r.addr.toNat + r.len < 2 ^ w

instance : Decidable r.Fits := inferInstanceAs (Decidable (_ < _))

variable {r r'}

theorem Touches.symm (h : r.Touches r') : r'.Touches r := by
  obtain ⟨a, ha, ha'⟩ := h
  exact ⟨a, ha', ha⟩

theorem Apart.symm (h : r.Apart r') : r'.Apart r := fun ht => h ht.symm

theorem inRange_iff (h : r.Fits) : r.inRange a = true ↔ r.Has a := by
  have ha := a.isLt
  unfold Fits at h
  have hend : (r.addr + BitVec.ofNat w r.len).toNat = r.addr.toNat + r.len := by
    rw [BitVec.toNat_add, BitVec.toNat_ofNat, Nat.mod_eq_of_lt (show r.len < 2 ^ w by omega), Nat.mod_eq_of_lt h]
  rw [inRange, decide_eq_true_iff, Has, BitVec.le_def, BitVec.lt_def, hend, BitVec.toNat_sub]
  rcases Nat.lt_or_ge a.toNat r.addr.toNat with hlt | hge
  · rw [Nat.mod_eq_of_lt (by omega)]
    omega
  · rw [show 2 ^ w - r.addr.toNat + a.toNat = a.toNat - r.addr.toNat + 2 ^ w by omega, Nat.add_mod_right, Nat.mod_eq_of_lt (by omega)]
    omega

/-- **Ranges with a common address**: one of them has the first address of the other. -/
theorem inRange_of_touches (h : r.Fits) (h' : r'.Fits) (ht : r.Touches r') : r.inRange r'.addr = true ∨ r'.inRange r.addr = true := by
  obtain ⟨a, ha, ha'⟩ := ht
  rw [← inRange_iff h, inRange, decide_eq_true_iff, BitVec.le_def, BitVec.lt_def] at ha
  rw [← inRange_iff h', inRange, decide_eq_true_iff, BitVec.le_def, BitVec.lt_def] at ha'
  simp only [inRange, decide_eq_true_iff, BitVec.le_def, BitVec.lt_def]
  omega

theorem overlaps_of_touches (h : r.Fits) (h' : r'.Fits) (ht : r.Touches r') : r.overlaps r' = true := by
  rcases inRange_of_touches h h' ht with hin | hin
  · simp [overlaps, hin]
  · simp [overlaps, hin]

theorem apart_of_not_overlaps (h : r.Fits) (h' : r'.Fits) (ho : r.overlaps r' = false) : r.Apart r' := by
  intro ht
  rw [overlaps_of_touches h h' ht] at ho
  cases ho

end Range

end LibSystemCTLM.Foundation
