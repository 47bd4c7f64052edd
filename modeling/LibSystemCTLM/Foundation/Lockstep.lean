import LibSystemCTLM.Foundation.Instances
import Mathlib.Data.List.Basic

/-!
# Two streams that are paired by index

Two sides issue items in any order, and the items with the same index belong together. `surplus` is what one side
is ahead by: it is all that a component has to remember, the first of it is the partner of the next item of the other
side, and never are both sides ahead (`surplus_eq_nil_or`). `mismatches` counts the pairs that differ.
-/

namespace LibSystemCTLM.Foundation.Lockstep

variable {α : Type*} (as bs : List α) (a : α)

/-- What `as` is ahead of `bs` by. -/
def surplus : List α := as.drop bs.length

theorem length_surplus : (surplus as bs).length = as.length - bs.length := List.length_drop

theorem surplus_eq_nil_or : surplus as bs = [] ∨ surplus bs as = [] := by
  obtain h | h := Nat.le_total as.length bs.length
  · exact .inl (List.drop_eq_nil_of_le h)
  · exact .inr (List.drop_eq_nil_of_le h)

theorem head?_surplus : (surplus bs as).head? = bs[as.length]? := List.head?_drop

/-- The other side issues an item. -/
theorem surplus_concat_right : surplus bs (as ++ [a]) = (surplus bs as).tail := by
  rw [surplus, surplus, List.tail_drop, List.length_append]
  rfl

variable {as bs}

/-- The side that is ahead issues an item. -/
theorem surplus_concat_of_le (h : bs.length ≤ as.length) : surplus (as ++ [a]) bs = surplus as bs ++ [a] :=
  List.drop_append_of_le_length h

/-- The side that is behind issues an item. -/
theorem surplus_concat_of_lt (h : as.length < bs.length) : surplus (as ++ [a]) bs = surplus as bs := by
  rw [surplus, surplus, List.drop_eq_nil_of_le (Nat.le_of_lt h), List.drop_eq_nil_of_le (by simpa using Nat.succ_le_of_lt h)]

/-- Nobody waits for the side that is ahead. -/
theorem surplus_eq_nil_iff : surplus bs as = [] ↔ bs.length ≤ as.length := List.drop_eq_nil_iff

variable (as bs) [DecidableEq α]

/-- How many of the pairs differ. -/
def mismatches : ℕ := (as.zip bs).countP fun p => decide (p.1 ≠ p.2)

theorem mismatches_comm : mismatches as bs = mismatches bs as := by
  unfold mismatches
  induction as generalizing bs with
  | nil => simp
  | cons a as ih =>
    cases bs with
    | nil => rfl
    | cons b bs => simp only [List.zip_cons_cons, List.countP_cons, ih, ne_comm]

/-- The next item differs from its partner, if that is there. -/
theorem mismatches_concat : mismatches (as ++ [a]) bs = mismatches as bs + if ∃ b ∈ bs[as.length]?, a ≠ b then 1 else 0 := by
  unfold mismatches
  induction as generalizing bs with
  | nil => cases bs <;> simp
  | cons a' as ih =>
    cases bs with
    | nil => simp
    | cons b bs =>
      simp only [List.cons_append, List.zip_cons_cons, List.countP_cons, ih, List.length_cons, List.getElem?_cons_succ]
      omega

end LibSystemCTLM.Foundation.Lockstep
