import LibSystemCTLM.Foundation.Instances
import Mathlib.Data.List.Basic
import Mathlib.Data.List.Nodup

/-!
# What stands before what in a list

`Before l u t` says that `u` stands before `t` in `l`. In a list without repetition this is the same
as being met by a scan that stops at `t`, and it is not changed by what is appended or taken out
elsewhere.
-/

namespace LibSystemCTLM.Foundation

variable {α : Type*} {l l' : List α} {u t v : α}

/-- `u` stands before `t` in the list. -/
def Before (l : List α) (u t : α) : Prop := [u, t].Sublist l

theorem Before.filter {p : α → Bool} (h : Before l u t) (hu : p u = true) (ht : p t = true) : Before (l.filter p) u t := by
  simpa [Before, List.filter_cons, hu, ht] using List.Sublist.filter p h

theorem Before.left_mem (h : Before l u t) : u ∈ l := h.subset (by simp)

theorem Before.right_mem (h : Before l u t) : t ∈ l := h.subset (by simp)

theorem before_iff_append : Before l u t ↔ ∃ pre post, l = pre ++ post ∧ u ∈ pre ∧ t ∈ post := by
  rw [Before, List.cons_sublist_iff]
  simp only [List.singleton_sublist]

theorem Before.ne (hn : l.Nodup) (h : Before l u t) : u ≠ t := by
  have hpair := hn.sublist h
  simpa using hpair

/-- Of two elements, one stands before the other. -/
theorem before_total (hu : u ∈ l) (ht : t ∈ l) (hne : u ≠ t) : Before l u t ∨ Before l t u := by
  obtain ⟨pre, post, rfl⟩ := List.append_of_mem hu
  rcases List.mem_append.1 ht with ht | ht
  · exact .inr (before_iff_append.2 ⟨pre, u :: post, rfl, ht, List.mem_cons_self⟩)
  · have hpost : t ∈ post := (List.mem_cons.1 ht).resolve_left (Ne.symm hne)
    exact .inl (before_iff_append.2 ⟨pre ++ [u], post, by simp, by simp, hpost⟩)

/-- What stands before an element of the first part stands in the first part. -/
theorem Before.of_append (hn : (l ++ l').Nodup) (ht : t ∈ l) (h : Before (l ++ l') u t) : Before l u t := by
  obtain ⟨pre, post, heq, hu, hpost⟩ := before_iff_append.1 h
  obtain ⟨m, rfl, rfl⟩ | ⟨m, rfl, rfl⟩ := List.append_eq_append_iff.1 heq
  · -- all of `l` stands before `t`, which is in `l`
    refine absurd rfl ((List.nodup_append.1 hn).2.2 t ht t ?_)
    exact List.mem_append_right m hpost
  · rcases List.mem_append.1 ht with ht | ht
    · exact absurd rfl ((List.nodup_append.1 (heq ▸ hn)).2.2 t ht t hpost)
    · exact before_iff_append.2 ⟨pre, m, rfl, hu, ht⟩

/-- A scan up to `t` meets what stands before it. -/
theorem Before.mem_takeWhile [DecidableEq α] (hn : l.Nodup) (h : Before l u t) : u ∈ l.takeWhile (· ≠ t) := by
  obtain ⟨pre, post, rfl, hu, ht⟩ := before_iff_append.1 h
  have hpre : ∀ x ∈ pre, decide (x ≠ t) = true := fun x hx =>
    decide_eq_true ((List.nodup_append.1 hn).2.2 x hx t ht)
  rw [List.takeWhile_append_of_pos hpre]
  exact List.mem_append_left _ hu

end LibSystemCTLM.Foundation
