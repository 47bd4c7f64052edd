import Mathlib.Data.Nat.Notation

/-!
# Instances with names

Whether an opcode or an address is in a list rests on the lawfulness of their equality, and the literals of a small
`Fin` on its size not being zero. These facts have names here, so that every module finds the same ones.
-/

namespace LibSystemCTLM.Foundation

instance lawfulBEq_opcode : LawfulBEq (BitVec 8) := inferInstance

instance lawfulBEq_address : LawfulBEq (BitVec 64) := inferInstance

instance lawfulBEq_fin {n : ℕ} : LawfulBEq (Fin n) := inferInstance

instance neZero_one : @NeZero ℕ Zero.ofOfNat0 1 := inferInstance

instance neZero_two : @NeZero ℕ Zero.ofOfNat0 2 := inferInstance

instance neZero_eight : @NeZero ℕ Zero.ofOfNat0 8 := inferInstance

instance neZero_sixteen : @NeZero ℕ Zero.ofOfNat0 16 := inferInstance

/-- A bus of four bytes is not too wide. -/
theorem two_le_seven : 2 ≤ 7 := by decide

end LibSystemCTLM.Foundation
