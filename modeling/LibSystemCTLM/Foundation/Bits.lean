import LibSystemCTLM.Foundation.Fields

/-!
# Fields of a row of bits

A packet on a bus is a row of bits that is written by a cursor: each field is put where the cursor
stands, which moves behind it. A row `Holds` a list of fields from a position on if it has their
bits one behind the other there; that is what writing them leaves (`holds_putAll`), and what is
written behind them does not touch it (`Holds.congr`). `slice` reads a field as a word.

A `Reader` has the position as its state. It `Reads` a value of a list of fields if it finds that
value, and stops behind them, wherever the fields are; the rules for this follow the reader's own
shape (`Reads.cons`, `Reads.append`, `Reads.pure`).
-/

namespace LibSystemCTLM.Foundation

/-- The bits of a packet, by their position. -/
abbrev Bits := ℕ → Bool

/-- A field to be written: its width and its bits. -/
structure Slot where
  width : ℕ
  bit : ℕ → Bool

namespace Bits

/-- The field put at a position. -/
def put (m : Bits) (pos : ℕ) (s : Slot) : Bits := fun i => if pos ≤ i ∧ i < pos + s.width then s.bit (i - pos) else m i

/-- The fields put one behind the other, and the position behind them. -/
def putAll : List Slot → Bits × ℕ → Bits × ℕ
  | [], c => c
  | s :: l, c => putAll l (c.1.put c.2 s, c.2 + s.width)

/-- The `w` bits at a position, as a word. -/
def slice (n : ℕ) (m : Bits) (pos w : ℕ) : BitVec n := ofBits n fun i => decide (i < w) && m (pos + i)

/-- The fields are found one behind the other. -/
def Holds (m : Bits) : ℕ → List Slot → Prop
  | _, [] => True
  | pos, s :: l => (∀ i < s.width, m (pos + i) = s.bit i) ∧ m.Holds (pos + s.width) l

/-- The bits that a list of fields takes. -/
def total (l : List Slot) : ℕ := (l.map Slot.width).sum

variable {m m' : Bits} {pos : ℕ} {s : Slot} {l : List Slot}

@[simp] theorem total_nil : total [] = 0 := rfl

@[simp] theorem total_cons : total (s :: l) = s.width + total l := by simp [total]

theorem put_of_outside {i : ℕ} (h : i < pos ∨ pos + s.width ≤ i) : m.put pos s i = m i := by
  rw [put, if_neg (by omega)]

theorem put_inside {i : ℕ} (h : i < s.width) : m.put pos s (pos + i) = s.bit i := by
  rw [put, if_pos (by omega), Nat.add_sub_cancel_left]

/-- The cursor ends behind what was written. -/
theorem putAll_pos (l : List Slot) (c : Bits × ℕ) : (putAll l c).2 = c.2 + total l := by
  induction l generalizing c with
  | nil => rfl
  | cons s l ih =>
    rw [putAll, ih, total_cons]
    omega

/-- What lies before the cursor stays. -/
theorem putAll_of_lt {i : ℕ} (l : List Slot) {c : Bits × ℕ} (h : i < c.2) : (putAll l c).1 i = c.1 i := by
  induction l generalizing c with
  | nil => rfl
  | cons s l ih =>
    rw [putAll, ih (Nat.lt_add_right _ h)]
    exact put_of_outside (.inl h)

/-- **What was written is found.** -/
theorem holds_putAll (l : List Slot) (c : Bits × ℕ) : (putAll l c).1.Holds c.2 l := by
  induction l generalizing c with
  | nil => exact trivial
  | cons s l ih =>
    constructor
    · intro i hi
      rw [putAll, putAll_of_lt l (by simpa using hi)]
      exact put_inside hi
    · exact ih _

/-- Only the fields' own bits matter. -/
theorem Holds.congr (h : m.Holds pos l) (heq : ∀ i, pos ≤ i → i < pos + total l → m' i = m i) : m'.Holds pos l := by
  induction l generalizing pos with
  | nil => exact trivial
  | cons s l ih =>
    rw [total_cons] at heq
    constructor
    · intro i hi
      rw [heq _ (by omega) (by omega)]
      exact h.1 i hi
    · exact ih h.2 fun i hlo hhi => heq i (by omega) (by omega)

theorem getLsbD_slice (n : ℕ) (m : Bits) (pos w i : ℕ) : (slice n m pos w).getLsbD i = (decide (i < n) && (decide (i < w) && m (pos + i))) :=
  getLsbD_ofBits n _ i

/-- A word that was written is read back, as far as it fits. -/
theorem slice_of_bits {n w : ℕ} {v : BitVec n} (h : ∀ i < w, m (pos + i) = v.getLsbD i) (hv : v.toNat < 2 ^ w) : slice n m pos w = v := by
  apply BitVec.eq_of_getLsbD_eq
  intro i hi
  rw [getLsbD_slice]
  by_cases hw : i < w
  · simp [hi, hw, h i hw]
  · have hz : v.getLsbD i = false := by
      rw [← BitVec.testBit_toNat]
      exact Nat.testBit_lt_two_pow (lt_of_lt_of_le hv (Nat.pow_le_pow_right (by decide) (Nat.not_lt.1 hw)))
    simp [hw, hz]

theorem holds_append (l₁ l₂ : List Slot) : m.Holds pos (l₁ ++ l₂) ↔ m.Holds pos l₁ ∧ m.Holds (pos + total l₁) l₂ := by
  induction l₁ generalizing pos with
  | nil => simp [Holds]
  | cons s l₁ ih =>
    rw [List.cons_append, Holds, Holds, ih, total_cons, ← Nat.add_assoc, and_assoc]

theorem total_append (l₁ l₂ : List Slot) : total (l₁ ++ l₂) = total l₁ + total l₂ := by simp [total]

theorem total_range {f : ℕ → Slot} {w : ℕ} (hw : ∀ i, (f i).width = w) (n : ℕ) : total ((List.range n).map f) = w * n := by
  induction n with
  | zero => simp
  | succ n ih =>
    rw [List.range_succ, List.map_append, total_append, ih]
    simp [hw, Nat.mul_succ]

/-- The fields of an array. -/
theorem Holds.get_range {f : ℕ → Slot} {w n : ℕ} (hw : ∀ i, (f i).width = w) (h : m.Holds pos ((List.range n).map f)) {i j : ℕ} (hi : i < n)
    (hj : j < w) : m (pos + w * i + j) = (f i).bit j := by
  induction n with
  | zero => omega
  | succ n ih =>
    rw [List.range_succ, List.map_append, holds_append, total_range hw] at h
    rcases Nat.lt_or_ge i n with hin | hin
    · exact ih h.1 hin
    · obtain rfl : i = n := by omega
      exact h.2.1 j (by rw [hw]; exact hj)

end Bits

/-! ### Reading -/

/-- A reader of bits, with its position as its state. -/
abbrev Reader := StateM ℕ

/-- The reader finds `a` where the fields are, and stops behind them. -/
def Reads {α : Type} (x : Reader α) (m : Bits) (l : List Slot) (a : α) : Prop := ∀ pos, m.Holds pos l → x pos = (a, pos + Bits.total l)

namespace Reads

variable {α β : Type} {x : Reader α} {k : α → Reader β} {m : Bits} {s : Slot} {l l₁ l₂ : List Slot} {a : α} {b : β}

protected theorem pure (a : α) : Reads (pure a) m [] a := fun _ _ => rfl

theorem append (hx : Reads x m l₁ a) (hk : Reads (k a) m l₂ b) : Reads (x >>= k) m (l₁ ++ l₂) b := by
  intro pos h
  rw [Bits.holds_append] at h
  show k (x pos).1 (x pos).2 = _
  rw [hx pos h.1, hk _ h.2, Bits.total_append, Nat.add_assoc]

theorem cons (hx : Reads x m [s] a) (hk : Reads (k a) m l b) : Reads (x >>= k) m (s :: l) b := append hx hk

/-- The last field. -/
theorem last (hx : Reads x m l a) (hk : k a = pure b) : Reads (x >>= k) m l b := by
  have h := append hx (show Reads (k a) m [] b from hk ▸ Reads.pure b)
  rwa [List.append_nil] at h

end Reads

end LibSystemCTLM.Foundation
