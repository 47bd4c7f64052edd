import LibSystemCTLM.Foundation.Instances
import Mathlib.Data.List.Basic
import Mathlib.Tactic.Tauto

/-!
# A list around one of its elements

Lists as `pre ++ x :: post`, with `x` the element that a step is about: where it is found, and what
putting another in its place or taking it out makes of the list.
-/

namespace LibSystemCTLM.Foundation

variable {α : Type*} {l pre post pre' post' : List α} {x y : α} {k : ℕ}

theorem exists_append_of_getElem? (h : l[k]? = some x) : ∃ pre post, l = pre ++ x :: post ∧ pre.length = k := by
  obtain ⟨hk, rfl⟩ := List.getElem?_eq_some_iff.1 h
  exact ⟨l.take k, l.drop (k + 1), by rw [List.getElem_cons_drop, List.take_append_drop], by simp; omega⟩

theorem mem_middle : y ∈ pre ++ x :: post ↔ y = x ∨ y ∈ pre ++ post := by
  simp only [List.mem_append, List.mem_cons]
  tauto

theorem set_middle (pre post : List α) (x y : α) : (pre ++ x :: post).set pre.length y = pre ++ y :: post := by
  simp [List.set_append_right]

theorem eraseIdx_middle (pre post : List α) (x : α) : (pre ++ x :: post).eraseIdx pre.length = pre ++ post := by
  simp [List.eraseIdx_append_of_length_le]

/-- The first elements with a property are at the same place in equal lists. -/
theorem append_cons_inj {P : α → Prop} [DecidablePred P] (h : pre ++ x :: post = pre' ++ y :: post') (hx : P x) (hy : P y)
    (hpre : ∀ u ∈ pre, ¬P u) (hpre' : ∀ u ∈ pre', ¬P u) : pre = pre' ∧ x = y ∧ post = post' := by
  have htake : ∀ (l r : List α) (z : α), P z → (∀ u ∈ l, ¬P u) → (l ++ z :: r).takeWhile (fun u => !decide (P u)) = l := by
    intro l r z hz hl
    rw [List.takeWhile_append_of_pos fun u hu => by simp [hl u hu], List.takeWhile_cons_of_neg (by simp [hz]), List.append_nil]
  have heq : pre = pre' := by rw [← htake pre post x hx hpre, h, htake pre' post' y hy hpre']
  subst heq
  obtain ⟨hxy, hrest⟩ := List.cons.inj (List.append_cancel_left h)
  exact ⟨rfl, hxy, hrest⟩

end LibSystemCTLM.Foundation
