import LibSystemCTLM.Foundation.Instances
import Mathlib.Data.List.Basic
import Mathlib.Data.List.Nodup

/-!
# The first element with a property

A list that is searched with `List.find?`, and in which what is found is changed or taken out in its place; or
that is split there.
-/

namespace LibSystemCTLM.Foundation

variable {α β κ : Type*} {p q : α → Bool} {f : α → Option α} {l : List α} {a b : α}

/-- The first element with `p` becomes what `f` says, or is taken out. -/
def updateFirst (p : α → Bool) (f : α → Option α) : List α → List α
  | [] => []
  | a :: l => if p a = true then (f a).toList ++ l else a :: updateFirst p f l

/-- What is found alike is changed alike. -/
theorem updateFirst_congr (h : l.find? p = l.find? q) : updateFirst p f l = updateFirst q f l := by
  induction l with
  | nil => rfl
  | cons a l ih =>
    rw [List.find?_cons, List.find?_cons] at h
    unfold updateFirst
    cases hp : p a with
    | true =>
      cases hq : q a with
      | true => rfl
      | false =>
        simp only [hp, hq] at h
        have hqa := List.find?_some h.symm
        rw [hq] at hqa
        cases hqa
    | false =>
      cases hq : q a with
      | true =>
        simp only [hp, hq] at h
        have hpa := List.find?_some h
        rw [hp] at hpa
        cases hpa
      | false =>
        simp only [hp, hq] at h
        rw [if_neg Bool.false_ne_true, if_neg Bool.false_ne_true, ih h]

/-- Where nothing is found the search goes on. -/
theorem updateFirst_append_of_none {l' : List α} (h : l.find? p = none) : updateFirst p f (l ++ l') = l ++ updateFirst p f l' := by
  induction l with
  | nil => rfl
  | cons a l ih =>
    obtain ⟨ha, hl⟩ : p a = false ∧ l.find? p = none := by simpa [List.find?_eq_none] using h
    rw [List.cons_append, updateFirst, if_neg (by simp [ha]), ih hl, List.cons_append]

/-- It ends where something is found. -/
theorem updateFirst_append_of_some {l' : List α} (h : l.find? p = some a) : updateFirst p f (l ++ l') = updateFirst p f l ++ l' := by
  induction l with
  | nil => cases h
  | cons b l ih =>
    rw [List.cons_append, updateFirst, updateFirst]
    by_cases hb : p b = true
    · rw [if_pos hb, if_pos hb, List.append_assoc]
    · rw [List.find?_cons_of_neg hb] at h
      rw [if_neg hb, if_neg hb, ih h, List.cons_append]

/-- What is taken out was there. -/
theorem updateFirst_none_subset : updateFirst p (fun _ => none) l ⊆ l := by
  induction l with
  | nil => exact List.Subset.refl _
  | cons a l ih =>
    unfold updateFirst
    split
    · exact List.subset_cons_self _ _
    · exact List.cons_subset_cons _ ih

/-- The same in the image of the list. -/
theorem updateFirst_map {g : α → β} {p : β → Bool} {f : β → Option β} {f' : α → Option α}
    (h : ∀ a ∈ l.find? (p ∘ g), f (g a) = (f' a).map g) : updateFirst p f (l.map g) = (updateFirst (p ∘ g) f' l).map g := by
  induction l with
  | nil => rfl
  | cons a l ih =>
    simp only [List.find?_cons, Function.comp_apply] at h
    simp only [List.map_cons, updateFirst, Function.comp_apply]
    by_cases hp : p (g a) = true
    · simp only [hp] at h
      rw [if_pos hp, if_pos hp, List.map_append, h a rfl]
      cases f' a <;> rfl
    · simp only [Bool.not_eq_true _ ▸ hp] at h
      rw [if_neg hp, if_neg hp, List.map_cons, ih h]

/-- Keys that are kept or taken out with their element stay in their order. -/
theorem map_updateFirst_sublist {key : α → κ} (hkey : ∀ a, ∀ b ∈ f a, key b = key a) : ((updateFirst p f l).map key).Sublist (l.map key) := by
  induction l with
  | nil => exact List.Sublist.refl _
  | cons a l ih =>
    unfold updateFirst
    split
    · cases hf : f a with
      | none => exact List.sublist_cons_self _ _
      | some b =>
        change (key b :: l.map key).Sublist (key a :: l.map key)
        rw [hkey a b hf]
    · exact ih.cons_cons _

/-- Keys that are kept with their element stay. -/
theorem map_updateFirst_eq {key : α → κ} (hkey : ∀ a, (f a).map key = some (key a)) : (updateFirst p f l).map key = l.map key := by
  induction l with
  | nil => rfl
  | cons a l ih =>
    unfold updateFirst
    split
    · obtain ⟨b, hb, hkey⟩ := Option.map_eq_some_iff.1 (hkey a)
      rw [hb, List.map_append, List.map_cons, ← hkey]
      rfl
    · rw [List.map_cons, List.map_cons, ih]

/-- What is taken out of the image of a list is taken out of the list, if the same is found there. -/
theorem updateFirst_none_map {g : α → β} {p : β → Bool} (h : l.find? (p ∘ g) = l.find? q) :
    updateFirst p (fun _ => none) (l.map g) = (updateFirst q (fun _ => none) l).map g := by
  have hmap : updateFirst p (fun _ => none) (l.map g) = (updateFirst (p ∘ g) (fun _ => none) l).map g := updateFirst_map fun _ _ => rfl
  rw [hmap, updateFirst_congr h]

/-- What is found has one place in a list of which the keys differ. -/
theorem eq_of_key_eq {key : α → κ} (hnodup : (l.map key).Nodup) (ha : a ∈ l) (hb : b ∈ l) (h : key a = key b) : a = b :=
  List.inj_on_of_nodup_map hnodup ha hb h

/-- What is found in it is known by its key. -/
theorem option_eq_iff_map_key {key : α → κ} (hnodup : (l.map key).Nodup) {x y : Option α} (hx : ∀ a ∈ x, a ∈ l) (hy : ∀ a ∈ y, a ∈ l) :
    x = y ↔ x.map key = y.map key := by
  refine ⟨congrArg _, fun h => ?_⟩
  cases x with
  | none => exact (Option.map_eq_none_iff.1 h.symm).symm
  | some a =>
    obtain ⟨b, rfl, hkey⟩ := Option.map_eq_some_iff.1 h.symm
    rw [eq_of_key_eq hnodup (hx a rfl) (hy b rfl) hkey.symm]

/-- Two searches find the same if they find the same key. -/
theorem find?_eq_iff_map_key {key : α → κ} (hnodup : (l.map key).Nodup) :
    l.find? p = l.find? q ↔ (l.find? p).map key = (l.find? q).map key :=
  option_eq_iff_map_key hnodup (fun _ => List.mem_of_find?_eq_some) fun _ => List.mem_of_find?_eq_some

/-- Properties that agree on the elements split the list alike. -/
theorem takeWhile_congr (h : ∀ a ∈ l, p a = q a) : l.takeWhile p = l.takeWhile q := by
  induction l with
  | nil => rfl
  | cons a l ih => rw [List.takeWhile_cons, List.takeWhile_cons, h a List.mem_cons_self, ih fun b hb => h b (List.mem_cons_of_mem a hb)]

theorem dropWhile_congr (h : ∀ a ∈ l, p a = q a) : l.dropWhile p = l.dropWhile q := by
  have hsplit := (List.takeWhile_append_dropWhile (p := p) (l := l)).trans (List.takeWhile_append_dropWhile (p := q) (l := l)).symm
  rw [takeWhile_congr h] at hsplit
  exact List.append_cancel_left hsplit

end LibSystemCTLM.Foundation
