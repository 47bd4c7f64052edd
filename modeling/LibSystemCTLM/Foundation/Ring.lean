import LibSystemCTLM.Foundation.Instances
import Mathlib.Data.BitVec
import Mathlib.Data.List.Pairwise

/-!
# Arcs on a ring

Arcs on a ring of `2 ^ w` places that lie one after the other, from a place on and not round to it again. They do not
meet, they stay so when some of them are taken away and when one is put where there is room for it, and a run of free
places lies in the room behind one of them.
-/

namespace LibSystemCTLM.Foundation

variable {w : ℕ} {α : Type*}

/-- So many places from a place on. -/
structure Arc (w : ℕ) where
  start : BitVec w
  length : ℕ

namespace Arc

def Covers (a : Arc w) (x : BitVec w) : Prop := (x - a.start).toNat < a.length

/-- How far from `b` an arc starts, and stops. -/
def offset (b : BitVec w) (a : Arc w) : ℕ := (a.start - b).toNat

def stop (b : BitVec w) (a : Arc w) : ℕ := a.offset b + a.length

end Arc

/-- Distances seen from another place. -/
theorem toNat_sub_rebase (b x s : BitVec w) : (x - s).toNat =
    if (s - b).toNat ≤ (x - b).toNat then (x - b).toNat - (s - b).toNat else 2 ^ w + (x - b).toNat - (s - b).toNat := by
  have hx : x - s = (x - b) - (s - b) := (sub_sub_sub_cancel_right x s b).symm
  have hxlt := (x - b).isLt
  have hslt := (s - b).isLt
  rw [hx, BitVec.toNat_sub]
  split
  · rename_i hle
    have hsum : 2 ^ w - (s - b).toNat + (x - b).toNat = ((x - b).toNat - (s - b).toNat) + 2 ^ w := by omega
    rw [hsum, Nat.add_mod_right, Nat.mod_eq_of_lt (by omega)]
  · rw [Nat.mod_eq_of_lt (by omega)]
    omega

theorem Arc.covers_iff {a : Arc w} {b x : BitVec w} (h : a.stop b ≤ 2 ^ w) : a.Covers x ↔ a.offset b ≤ (x - b).toNat ∧ (x - b).toNat < a.stop b := by
  unfold Arc.stop Arc.offset at *
  unfold Arc.Covers
  rw [toNat_sub_rebase b]
  split <;> omega

/-- The arcs of a list lie one after the other from `b` on. -/
structure Laid (b : BitVec w) (arc : α → Arc w) (l : List α) : Prop where
  ordered : l.Pairwise fun i j => (arc i).stop b ≤ (arc j).offset b
  fits : ∀ i ∈ l, (arc i).stop b ≤ 2 ^ w

/-- The places that are free behind the arc of `i`, where those of `rest` come next. -/
def room (b : BitVec w) (arc : α → Arc w) (i : α) (rest : List α) : ℕ := rest.head?.elim (2 ^ w) (fun j => (arc j).offset b) - (arc i).stop b

namespace Laid

variable {b : BitVec w} {arc arc' : α → Arc w} {l xs ys : List α} {i j m : α}

theorem nil : Laid b arc [] := ⟨.nil, nofun⟩

theorem congr (h : Laid b arc l) (heq : ∀ i ∈ l, arc i = arc' i) : Laid b arc' l := by
  refine ⟨h.ordered.imp_of_mem fun hi hj hij => ?_, fun i hi => ?_⟩
  · rw [← heq _ hi, ← heq _ hj]
    exact hij
  · rw [← heq i hi]
    exact h.fits i hi

theorem sublist (h : Laid b arc l) (hs : xs.Sublist l) : Laid b arc xs := ⟨h.ordered.sublist hs, fun i hi => h.fits i (hs.subset hi)⟩

/-- **Arcs that are laid do not meet.** -/
theorem disjoint (h : Laid b arc l) (hi : i ∈ l) (hj : j ∈ l) (hne : i ≠ j) (x : BitVec w) : ¬((arc i).Covers x ∧ (arc j).Covers x) := by
  have hapart : l.Pairwise fun i j => ¬((arc i).Covers x ∧ (arc j).Covers x) := h.ordered.imp_of_mem fun hi hj hij => by
    rw [Arc.covers_iff (h.fits _ hi), Arc.covers_iff (h.fits _ hj)]
    omega
  have : Std.Symm fun i j => ¬((arc i).Covers x ∧ (arc j).Covers x) := ⟨fun _ _ h hc => h hc.symm⟩
  exact hapart.forall hi hj hne

/-- The ring may be looked at from where the first arc starts. -/
theorem rebase (h : Laid b arc (i :: l)) : Laid (arc i).start arc (i :: l) := by
  have hle : ∀ j ∈ i :: l, (arc i).offset b ≤ (arc j).offset b := by
    intro j hj
    obtain rfl | hj := List.mem_cons.1 hj
    · exact le_rfl
    · have := (List.pairwise_cons.1 h.ordered).1 j hj
      unfold Arc.stop at this
      omega
  have hoffset : ∀ j ∈ i :: l, (arc j).offset (arc i).start = (arc j).offset b - (arc i).offset b := fun j hj =>
    (toNat_sub_rebase b _ _).trans (if_pos (hle j hj))
  refine ⟨h.ordered.imp_of_mem fun hj hk hjk => ?_, fun j hj => ?_⟩
  · have := hle _ hj
    unfold Arc.stop at *
    rw [hoffset _ hj, hoffset _ hk]
    omega
  · have := h.fits j hj
    have := hle j hj
    unfold Arc.stop at *
    rw [hoffset j hj]
    omega

/-- **A new arc may be laid where there is room for it.** -/
theorem insert (h : Laid b arc (xs ++ i :: ys)) (hstart : (arc m).offset b = (arc i).stop b) (hroom : (arc m).length ≤ room b arc i ys) (hpos : 0 < (arc m).length) :
    Laid b arc (xs ++ i :: m :: ys) := by
  obtain ⟨hordered, hfits⟩ := h
  rw [List.pairwise_append, List.pairwise_cons] at hordered
  obtain ⟨hxs, ⟨hiys, hys⟩, hcross⟩ := hordered
  have hstop : (arc m).stop b = (arc i).stop b + (arc m).length := by rw [← hstart, Arc.stop]
  have hend : (arc m).stop b ≤ 2 ^ w ∧ ∀ y ∈ ys, (arc m).stop b ≤ (arc y).offset b := by
    unfold room at hroom
    cases ys with
    | nil => exact ⟨by rw [List.head?_nil, Option.elim_none] at hroom; omega, nofun⟩
    | cons y rest =>
      rw [List.head?_cons, Option.elim_some] at hroom
      have hy : (arc m).stop b ≤ (arc y).offset b := by omega
      have hyfits := hfits y (by simp)
      refine ⟨by unfold Arc.stop at *; omega, fun z hz => ?_⟩
      obtain rfl | hz := List.mem_cons.1 hz
      · exact hy
      · have := (List.pairwise_cons.1 hys).1 z hz
        unfold Arc.stop at *
        omega
  refine ⟨?_, fun j hj => ?_⟩
  · rw [List.pairwise_append, List.pairwise_cons, List.pairwise_cons]
    refine ⟨hxs, ⟨fun j hj => ?_, hend.2, hys⟩, fun x hx j hj => ?_⟩
    · obtain rfl | hj := List.mem_cons.1 hj
      · exact hstart.ge
      · exact hiys j hj
    · obtain rfl | hj := List.mem_cons.1 hj
      · exact hcross x hx j List.mem_cons_self
      · obtain rfl | hj := List.mem_cons.1 hj
        · have := hcross x hx i List.mem_cons_self
          unfold Arc.stop at *
          omega
        · exact hcross x hx j (List.mem_cons_of_mem _ hj)
  · simp only [List.mem_append, List.mem_cons] at hj
    obtain hj | rfl | rfl | hj := hj
    · exact hfits j (List.mem_append_left _ hj)
    · exact hfits j (by simp)
    · exact hend.1
    · exact hfits j (by simp [hj])

/-- The room behind an arc, as the distance to the arc that comes next on the ring. -/
theorem room_eq (h : Laid b arc (xs ++ i :: ys)) (hpos : 0 < (arc i).length) :
    room b arc i ys = (ys.head?.elim b (fun j => (arc j).start) - ((arc i).start + BitVec.ofNat w (arc i).length)).toNat := by
  have hfits := h.fits i (by simp)
  have hstop : ((arc i).start + BitVec.ofNat w (arc i).length - b).toNat = (arc i).stop b % 2 ^ w := by
    rw [add_sub_right_comm, BitVec.toNat_add, BitVec.toNat_ofNat, Nat.add_mod_mod]
    rfl
  have hdist : ∀ z, (z - ((arc i).start + BitVec.ofNat w (arc i).length)).toNat =
      if (arc i).stop b % 2 ^ w ≤ (z - b).toNat then (z - b).toNat - (arc i).stop b % 2 ^ w else 2 ^ w + (z - b).toNat - (arc i).stop b % 2 ^ w := fun z => by
    rw [toNat_sub_rebase b z, hstop]
  cases ys with
  | nil =>
    have hzero : (b - b).toNat = 0 := by
      rw [sub_self]
      rfl
    change 2 ^ w - (arc i).stop b = (b - _).toNat
    rw [hdist, hzero]
    obtain heq | hlt := hfits.eq_or_lt
    · rw [heq, Nat.mod_self, if_pos le_rfl, Nat.sub_self]
    · rw [Nat.mod_eq_of_lt hlt, if_neg (by unfold Arc.stop; omega), Nat.add_zero]
  | cons y rest =>
    have hle : (arc i).stop b ≤ (arc y).offset b := (List.pairwise_cons.1 (List.pairwise_append.1 h.ordered).2.1).1 y List.mem_cons_self
    have hlt : (arc y).offset b < 2 ^ w := BitVec.isLt _
    change (arc y).offset b - (arc i).stop b = ((arc y).start - _).toNat
    rw [hdist, Nat.mod_eq_of_lt (hle.trans_lt hlt)]
    exact (if_pos hle).symm

/-- The last of a list that lies before a place. -/
theorem exists_last {p : α → Prop} [DecidablePred p] : ∀ {l : List α} {i : α}, p i → ∃ xs j ys, i :: l = xs ++ j :: ys ∧ p j ∧ ∀ y ∈ ys.head?, ¬p y
  | [], i, hi => ⟨[], i, [], rfl, hi, nofun⟩
  | j :: l, i, hi => by
    by_cases hj : p j
    · obtain ⟨xs, k, ys, heq, hk, hnext⟩ := exists_last (l := l) hj
      exact ⟨i :: xs, k, ys, by rw [heq]; rfl, hk, hnext⟩
    · refine ⟨[], i, j :: l, rfl, hi, fun y hy => ?_⟩
      cases hy
      exact hj

/-- **A run of free places lies in the room behind an arc.** -/
theorem exists_room {n : ℕ} {x : BitVec w} (h : Laid (arc i).start arc (i :: l)) (hpos : ∀ j ∈ i :: l, 0 < (arc j).length)
    (hfree : ∀ t < n, ∀ j ∈ i :: l, ¬(arc j).Covers (x + BitVec.ofNat w t)) (hn : 0 < n) :
    ∃ xs j ys, i :: l = xs ++ j :: ys ∧ n ≤ room (arc i).start arc j ys := by
  set b := (arc i).start with hb
  set ξ := (x - b).toNat with hξ
  have hξlt : ξ < 2 ^ w := (x - b).isLt
  have hfirst : (arc i).offset b = 0 := by
    unfold Arc.offset
    rw [← hb, sub_self]
    rfl
  -- the places of the run, seen from where the first arc starts
  have hplace : ∀ t, ξ + t < 2 ^ w → (x + BitVec.ofNat w t - b).toNat = ξ + t := by
    intro t ht
    rw [add_sub_right_comm, BitVec.toNat_add, BitVec.toNat_ofNat, Nat.add_mod_mod, Nat.mod_eq_of_lt ht]
  have hround : ξ + n ≤ 2 ^ w := by
    by_contra hover
    refine hfree (2 ^ w - ξ) (by omega) i List.mem_cons_self ?_
    have hback : x + BitVec.ofNat w (2 ^ w - ξ) - b = 0 := by
      apply BitVec.eq_of_toNat_eq
      rw [add_sub_right_comm, BitVec.toNat_add, BitVec.toNat_ofNat, Nat.add_mod_mod, ← hξ, Nat.add_sub_cancel' hξlt.le, Nat.mod_self]
      rfl
    rw [Arc.covers_iff (h.fits i List.mem_cons_self), hback, Arc.stop, hfirst, Nat.zero_add]
    exact ⟨le_rfl, hpos i List.mem_cons_self⟩
  obtain ⟨xs, j, ys, heq, hj, hnext⟩ := exists_last (p := fun j => (arc j).offset b ≤ ξ) (l := l) (hfirst.trans_le (Nat.zero_le ξ))
  refine ⟨xs, j, ys, heq, ?_⟩
  have hmem : j ∈ i :: l := by simp [heq]
  have houtside : ¬(arc j).Covers x := by
    have hzero : x + BitVec.ofNat w 0 = x := add_zero x
    have := hfree 0 hn j hmem
    rwa [hzero] at this
  rw [Arc.covers_iff (h.fits j hmem), ← hξ] at houtside
  have hstop : (arc j).stop b ≤ ξ := by omega
  unfold room
  cases ys with
  | nil =>
    rw [List.head?_nil, Option.elim_none]
    omega
  | cons y rest =>
    rw [List.head?_cons, Option.elim_some]
    have hbehind : ξ < (arc y).offset b := not_le.1 (hnext y rfl)
    have hymem : y ∈ i :: l := by simp [heq]
    have hlt : (arc y).offset b < 2 ^ w := BitVec.isLt _
    by_contra hshort
    refine hfree ((arc y).offset b - ξ) (by omega) y hymem ?_
    rw [Arc.covers_iff (h.fits y hymem), hplace _ (by omega)]
    have := hpos y hymem
    unfold Arc.stop
    omega

end Laid

end LibSystemCTLM.Foundation
