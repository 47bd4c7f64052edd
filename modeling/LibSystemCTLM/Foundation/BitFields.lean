import LibSystemCTLM.Foundation.Instances
import Mathlib.Data.BitVec

/-!
# Bit fields of a record

A packed record is a word of `n` bits, and a member of it `len` bits from a position on: it is read by
`extractLsb'` and written by `deposit`, which leaves the members beside it as they are.
-/

namespace LibSystemCTLM.Foundation

variable {n len len' : ℕ}

/-- A member written. -/
def deposit (c : BitVec n) (pos : ℕ) (v : BitVec len) : BitVec n :=
  c &&& ~~~((BitVec.allOnes len).setWidth n <<< pos) ||| v.setWidth n <<< pos

theorem getLsbD_deposit (c : BitVec n) (pos : ℕ) (v : BitVec len) {i : ℕ} (hi : i < n) :
    (deposit c pos v).getLsbD i = if pos ≤ i ∧ i < pos + len then v.getLsbD (i - pos) else c.getLsbD i := by
  rw [deposit, BitVec.getLsbD_or, BitVec.getLsbD_and, BitVec.getLsbD_not, BitVec.getLsbD_shiftLeft, BitVec.getLsbD_shiftLeft,
    BitVec.getLsbD_setWidth, BitVec.getLsbD_setWidth, BitVec.getLsbD_allOnes]
  by_cases hpos : pos ≤ i
  · by_cases hlen : i - pos < len
    · rw [if_pos ⟨hpos, by omega⟩]
      simp [hi, hlen, Nat.not_lt.2 hpos, show i - pos < n by omega]
    · rw [if_neg (by omega)]
      simp [hi, hlen, Nat.not_lt.2 hpos, BitVec.getLsbD_of_ge v (i - pos) (by omega)]
  · rw [if_neg (by omega)]
    simp [hi, Nat.not_le.1 hpos]

/-- A member is read back. -/
theorem extract_deposit (c : BitVec n) {pos : ℕ} (v : BitVec len) (h : pos + len ≤ n) : (deposit c pos v).extractLsb' pos len = v := by
  apply BitVec.eq_of_getLsbD_eq
  intro i hi
  rw [BitVec.getLsbD_extractLsb', getLsbD_deposit c pos v (by omega), if_pos (by omega), Nat.add_sub_cancel_left]
  simp [hi]

/-- Another member stays. -/
theorem extract_deposit_of_disjoint (c : BitVec n) {pos pos' : ℕ} (v : BitVec len) (h : pos' + len' ≤ pos ∨ pos + len ≤ pos') :
    (deposit c pos v).extractLsb' pos' len' = c.extractLsb' pos' len' := by
  apply BitVec.eq_of_getLsbD_eq
  intro i hi
  rw [BitVec.getLsbD_extractLsb', BitVec.getLsbD_extractLsb']
  by_cases hn : pos' + i < n
  · rw [getLsbD_deposit c pos v hn, if_neg (by omega)]
  · rw [BitVec.getLsbD_of_ge _ _ (by omega), BitVec.getLsbD_of_ge _ _ (by omega)]

/-- So does another bit. -/
theorem getLsbD_deposit_of_disjoint (c : BitVec n) {pos i : ℕ} (v : BitVec len) (h : i < pos ∨ pos + len ≤ i) :
    (deposit c pos v).getLsbD i = c.getLsbD i := by
  by_cases hn : i < n
  · rw [getLsbD_deposit c pos v hn, if_neg (by omega)]
  · rw [BitVec.getLsbD_of_ge _ _ (by omega), BitVec.getLsbD_of_ge _ _ (by omega)]

end LibSystemCTLM.Foundation
