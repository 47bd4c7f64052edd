import LibSystemCTLM.Foundation.Instances
import Mathlib.Data.Fin.Basic
import Mathlib.Tactic.ByContra

/-!
# Blocks of a memory

Blocks of `k` cells each are read from and written to a memory at any cell. A block that is written is read back, one
that has no cell in common with it is left as it was (`read_write_of_apart`), and one that has is left exactly if
the cells that they share get what they hold (`read_write_eq_iff`).
-/

namespace LibSystemCTLM.Foundation.Blocks

variable {α : Type*} {k : ℕ} (mem : ℕ → α) (a c : ℕ) (b : Fin k → α)

/-- The block at `a`. -/
def read (k : ℕ) : Fin k → α := fun i => mem (a + i)

/-- The memory with the block at `a` written. -/
def write : ℕ → α := fun i => if h : a ≤ i ∧ i < a + k then b ⟨i - a, by omega⟩ else mem i

theorem write_add (i : Fin k) : write mem a b (a + i) = b i := by
  rw [write, dif_pos ⟨Nat.le_add_right a i, Nat.add_lt_add_left i.isLt a⟩]
  congr 1
  exact Fin.ext (Nat.add_sub_cancel_left a i)

theorem write_of_outside {i : ℕ} (h : i < a ∨ a + k ≤ i) : write mem a b i = mem i := dif_neg (by omega)

@[simp] theorem read_write_self : read (write mem a b) a k = b := funext fun i => write_add mem a b i

variable {mem a c b}

/-- A block apart from the one that is written. -/
theorem read_write_of_apart (h : a + k ≤ c ∨ c + k ≤ a) : read (write mem a b) c k = read mem c k := by
  funext i
  exact write_of_outside mem a b (by omega)

/-- A block that may overlap with it. -/
theorem read_write_eq_iff : read (write mem a b) c k = read mem c k ↔ ∀ i : Fin k, c ≤ a + i → a + i < c + k → b i = mem (a + i) := by
  constructor
  · intro h i hle hlt
    have hi := congrFun h ⟨a + i - c, by omega⟩
    have hcell : c + (a + i - c) = a + (i : ℕ) := by omega
    simp only [read, hcell] at hi
    rwa [write_add] at hi
  · intro h
    funext i
    by_cases hin : a ≤ c + (i : ℕ) ∧ c + (i : ℕ) < a + k
    · have hcell : a + (c + (i : ℕ) - a) = c + i := by omega
      have hi := h ⟨c + i - a, by omega⟩ (by change c ≤ a + (c + i - a); omega) (by change a + (c + i - a) < c + k; omega)
      simp only [hcell] at hi
      rw [read, write, dif_pos hin]
      exact hi
    · exact write_of_outside mem a b (by omega)

end LibSystemCTLM.Foundation.Blocks
