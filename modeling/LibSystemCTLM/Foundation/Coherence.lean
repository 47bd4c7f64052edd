import LibSystemCTLM.Foundation.Instances
import Mathlib.Tactic.Common

/-!
# Ownership of one line

Caches `ι` hold copies of one line. A copy is shared or not, and dirty or not; `none` is no copy.
`Owned` is the single-writer/multiple-reader rule: a copy that is not shared is the only one, and
at most one copy is dirty.

Two kinds of step keep it. In a local step (`LocalStep`) one cache writes to its unshared copy,
cleans its copy or drops it. In a fill (`FillStep`) one cache gets a copy and the others, having
been asked, keep theirs as shared copies or drop them: an unshared copy is handed out only when no
other copy is left, a dirty one only when no other copy is left dirty. Where every other copy is
dropped there is nothing to check (`Owned.of_alone`).
-/

namespace LibSystemCTLM.Foundation.Coherence

/-- How a copy is held. -/
structure Copy where
  shared : Bool
  dirty : Bool
  deriving DecidableEq, Repr

variable {ι : Type*} {σ σ' : ι → Option Copy}

/-- Single writer, multiple readers. -/
structure Owned (σ : ι → Option Copy) : Prop where
  /-- A copy that is not shared is the only one. -/
  alone : ∀ {i j : ι} {c : Copy}, σ i = some c → c.shared = false → j ≠ i → σ j = none
  /-- At most one copy is dirty. -/
  oneDirty : ∀ {i j : ι} {c d : Copy}, σ i = some c → σ j = some d → c.dirty = true → d.dirty = true → i = j

/-- What a cache does to its own copy: it drops it, or keeps it as shared as it was and no dirtier,
unless it is unshared. -/
def LocalRel (a b : Option Copy) : Prop :=
  b = none ∨ ∃ c d, a = some c ∧ b = some d ∧ d.shared = c.shared ∧ (d.dirty = true → c.dirty = true ∨ c.shared = false)

theorem LocalRel.refl (a : Option Copy) : LocalRel a a := by
  cases a with
  | none => exact .inl rfl
  | some c => exact .inr ⟨c, c, rfl, rfl, rfl, .inl⟩

theorem LocalRel.trans {a b c : Option Copy} (hab : LocalRel a b) (hbc : LocalRel b c) : LocalRel a c := by
  rcases hbc with rfl | ⟨x, y, hb, rfl, hs, hd⟩
  · exact .inl rfl
  rcases hab with rfl | ⟨u, v, rfl, hv, hs', hd'⟩
  · exact absurd hb (by simp)
  obtain rfl : v = x := by simpa [hv] using hb
  refine .inr ⟨u, y, rfl, rfl, hs.trans hs', fun hy => ?_⟩
  rcases hd hy with hx | hx
  · exact hd' hx
  · exact .inr (hs' ▸ hx)

/-- A step of the cache `j` on its own copy. -/
structure LocalStep (j : ι) (σ σ' : ι → Option Copy) : Prop where
  own : LocalRel (σ j) (σ' j)
  others : ∀ {i}, i ≠ j → σ' i = σ i

/-- The cache `j` gets the copy `c`. -/
structure FillStep (j : ι) (c : Copy) (σ σ' : ι → Option Copy) : Prop where
  own : σ' j = some c
  /-- What another cache keeps is a shared copy, as clean as it was. -/
  others : ∀ {i d}, i ≠ j → σ' i = some d → ∃ e, σ i = some e ∧ d.shared = true ∧ (d.dirty = true → e.dirty = true)
  alone : c.shared = false → ∀ {i}, i ≠ j → σ' i = none
  oneDirty : c.dirty = true → ∀ {i d}, i ≠ j → σ' i = some d → d.dirty = false

/-- A local step keeps the rule. -/
theorem Owned.localStep {j : ι} (h : Owned σ) (hs : LocalStep j σ σ') : Owned σ' where
  alone := by
    intro i l c hi hc hl
    by_cases hij : i = j
    · subst hij
      rcases hs.own with hn | ⟨a, b, ha, hb, hsh, -⟩
      · rw [hn] at hi
        cases hi
      · obtain rfl : b = c := by simpa [hb] using hi
        rw [hs.others hl]
        exact h.alone ha (hsh ▸ hc) hl
    · rw [hs.others hij] at hi
      have hn := h.alone hi hc hl
      by_cases hlj : l = j
      · subst hlj
        rcases hs.own with hn' | ⟨a, b, ha, -⟩
        · exact hn'
        · rw [hn] at ha
          cases ha
      · rw [hs.others hlj, hn]
  oneDirty := by
    -- a copy that became dirty was unshared, so it was the only one
    have key : ∀ {i l : ι} {c d : Copy}, σ' i = some c → σ' l = some d → c.dirty = true → d.dirty = true → i = j → i = l := by
      intro i l c d hi hl hc hd hij
      subst hij
      by_contra hne
      rcases hs.own with hn | ⟨a, b, ha, hb, -, hdb⟩
      · rw [hn] at hi
        cases hi
      · obtain rfl : b = c := by simpa [hb] using hi
        rw [hs.others (Ne.symm hne)] at hl
        rcases hdb hc with hda | hsa
        · exact hne (h.oneDirty ha hl hda hd)
        · rw [h.alone ha hsa (Ne.symm hne)] at hl
          cases hl
    intro i l c d hi hl hc hd
    by_cases hij : i = j
    · exact key hi hl hc hd hij
    · by_cases hlj : l = j
      · exact (key hl hi hd hc hlj).symm
      · rw [hs.others hij] at hi
        rw [hs.others hlj] at hl
        exact h.oneDirty hi hl hc hd

/-- A fill keeps the rule. -/
theorem Owned.fillStep {j : ι} {c : Copy} (h : Owned σ) (hs : FillStep j c σ σ') : Owned σ' where
  alone := by
    intro i l d hi hd hl
    by_cases hij : i = j
    · subst hij
      obtain rfl : c = d := by simpa [hs.own] using hi
      exact hs.alone hd hl
    · obtain ⟨e, -, hsh, -⟩ := hs.others hij hi
      rw [hd] at hsh
      cases hsh
  oneDirty := by
    intro i l d e hi hl hd he
    by_cases hij : i = j
    · subst hij
      obtain rfl : c = d := by simpa [hs.own] using hi
      by_contra hne
      rw [hs.oneDirty hd (Ne.symm hne) hl] at he
      cases he
    · by_cases hlj : l = j
      · subst hlj
        obtain rfl : c = e := by simpa [hs.own] using hl
        rw [hs.oneDirty he hij hi] at hd
        cases hd
      · obtain ⟨d', hd', -, hdd⟩ := hs.others hij hi
        obtain ⟨e', he', -, hee⟩ := hs.others hlj hl
        exact h.oneDirty hd' he' (hdd hd) (hee he)

/-- So does a step in which the cache `j` keeps what it has, and the others keep shared copies, no dirtier than they were. -/
theorem Owned.cleanStep {j : ι} (h : Owned σ) (hj : σ' j = σ j)
    (ho : ∀ {i d}, i ≠ j → σ' i = some d → ∃ e, σ i = some e ∧ d.shared = true ∧ (d.dirty = true → e.dirty = true)) : Owned σ' where
  alone := by
    intro i l c hi hc hl
    by_cases hij : i = j
    · subst hij
      rw [hj] at hi
      have hnone := h.alone hi hc hl
      cases hl' : σ' l with
      | none => rfl
      | some d =>
        obtain ⟨e, he, -⟩ := ho hl hl'
        rw [hnone] at he
        cases he
    · obtain ⟨e, -, hsh, -⟩ := ho hij hi
      rw [hc] at hsh
      cases hsh
  oneDirty := by
    have hold : ∀ {i c}, σ' i = some c → c.dirty = true → ∃ e, σ i = some e ∧ e.dirty = true := by
      intro i c hi hc
      by_cases hij : i = j
      · subst hij
        exact ⟨c, hj ▸ hi, hc⟩
      · obtain ⟨e, he, -, hd⟩ := ho hij hi
        exact ⟨e, he, hd hc⟩
    intro i l c d hi hl hc hd
    obtain ⟨c', hc', hcd⟩ := hold hi hc
    obtain ⟨d', hd', hdd⟩ := hold hl hd
    exact h.oneDirty hc' hd' hcd hdd

/-- The rule holds when all caches but one have no copy. -/
theorem Owned.of_alone {j : ι} (h : ∀ {i}, i ≠ j → σ i = none) : Owned σ where
  alone := by
    intro i l c hi _ hl
    by_cases hlj : l = j
    · subst hlj
      rw [h (Ne.symm hl)] at hi
      cases hi
    · exact h hlj
  oneDirty := by
    have key : ∀ {i : ι} {c : Copy}, σ i = some c → i = j := by
      intro i c hi
      by_contra hne
      rw [h hne] at hi
      cases hi
    intro i l c d hi hl _ _
    rw [key hi, key hl]

end LibSystemCTLM.Foundation.Coherence
