import LibSystemCTLM.Foundation.Instances
import Mathlib.Data.BitVec

/-!
# Fields of a byte image

A packed record is an image of bytes, and a field of it is a run of whole bytes at an offset. A
field is read and written in the byte order of a little-endian machine (`Field.get`,
`Field.put`); a field in network byte order is one whose value was byte-swapped (`bswap`) before
it was written. What was put into a field is read back from it (`get_put`), a field does not
notice what is put into a field apart from it (`get_put_of_apart`), and swapping twice is doing
nothing (`bswap_bswap`).
-/

namespace LibSystemCTLM.Foundation

/-- The word with the given bits, of which those from `w` on are left out. -/
def ofBits : (w : ℕ) → (ℕ → Bool) → BitVec w
  | 0, _ => .nil
  | w + 1, f => .cons (f w) (ofBits w f)

theorem getLsbD_ofBits (w : ℕ) (f : ℕ → Bool) (i : ℕ) : (ofBits w f).getLsbD i = (decide (i < w) && f i) := by
  induction w with
  | zero => simp [ofBits]
  | succ w ih =>
    rw [ofBits, BitVec.getLsbD_cons, ih]
    rcases Nat.lt_trichotomy i w with h | rfl | h
    · simp [Nat.ne_of_lt h, h, Nat.lt_succ_of_lt h]
    · simp
    · simp [Nat.ne_of_gt h, Nat.not_lt_of_gt h, show ¬ i < w + 1 by omega]

/-- The bytes of a record, by their offset. -/
abbrev Image := ℕ → BitVec 8

/-- A field of `w` bits, a whole number of bytes. -/
structure Field (w : ℕ) where
  off : ℕ
  whole : 8 ∣ w := by decide

/-- The bytes of a word in the other order. -/
def bswap {w : ℕ} (v : BitVec w) : BitVec w := ofBits w fun i => v.getLsbD (8 * (w / 8 - 1 - i / 8) + i % 8)

theorem bswap_bswap {w : ℕ} (hw : 8 ∣ w) (v : BitVec w) : bswap (bswap v) = v := by
  obtain ⟨n, rfl⟩ := hw
  apply BitVec.eq_of_getLsbD_eq
  intro i hi
  have hn : 8 * n / 8 = n := Nat.mul_div_cancel_left n (by decide)
  have hq : i / 8 < n := by omega
  -- the byte `i / 8` comes from byte `n - 1 - i / 8`, and that one from byte `i / 8`
  have hlt : 8 * (n - 1 - i / 8) + i % 8 < 8 * n := by omega
  have hdiv : (8 * (n - 1 - i / 8) + i % 8) / 8 = n - 1 - i / 8 := by omega
  have hmod : (8 * (n - 1 - i / 8) + i % 8) % 8 = i % 8 := by omega
  have hback : 8 * (n - 1 - (n - 1 - i / 8)) + i % 8 = i := by omega
  simp only [bswap, getLsbD_ofBits, hi, hn, hlt, hdiv, hmod, hback, decide_true, Bool.true_and]

namespace Field

variable {v w : ℕ}

/-- The number of bytes of a field. -/
def size (_ : Field w) : ℕ := w / 8

/-- The first byte behind a field. -/
def stop (f : Field w) : ℕ := f.off + f.size

/-- The value of a field. -/
def get (f : Field w) (m : Image) : BitVec w := ofBits w fun i => (m (f.off + i / 8)).getLsbD (i % 8)

/-- The image with another value in a field. -/
def put (f : Field w) (x : BitVec w) (m : Image) : Image := fun p =>
  if f.off ≤ p ∧ p < f.stop then x.extractLsb' (8 * (p - f.off)) 8 else m p

/-- Two fields have no byte in common. -/
def Apart (f : Field v) (g : Field w) : Prop := f.stop ≤ g.off ∨ g.stop ≤ f.off

instance (f : Field v) (g : Field w) : Decidable (f.Apart g) := inferInstanceAs (Decidable (_ ∨ _))

/-- A field reads nothing but its own bytes. -/
theorem get_congr (f : Field w) {m m' : Image} (h : ∀ p, f.off ≤ p → p < f.stop → m p = m' p) : f.get m = f.get m' := by
  apply BitVec.eq_of_getLsbD_eq
  intro i hi
  obtain ⟨n, hn⟩ := f.whole
  have hlt : f.off + i / 8 < f.stop := by
    simp only [stop, size]
    omega
  simp only [get, getLsbD_ofBits, hi, decide_true, Bool.true_and, h _ (Nat.le_add_right ..) hlt]

theorem put_of_outside (f : Field w) (x : BitVec w) (m : Image) {p : ℕ} (h : p < f.off ∨ f.stop ≤ p) : f.put x m p = m p := by
  rw [put, if_neg]
  omega

theorem get_put (f : Field w) (x : BitVec w) (m : Image) : f.get (f.put x m) = x := by
  apply BitVec.eq_of_getLsbD_eq
  intro i hi
  obtain ⟨n, hn⟩ := f.whole
  have hin : f.off ≤ f.off + i / 8 ∧ f.off + i / 8 < f.stop := by
    simp only [stop, size]
    omega
  have hbit : 8 * (f.off + i / 8 - f.off) + i % 8 = i := by omega
  have hlow : i % 8 < 8 := by omega
  simp only [get, put, getLsbD_ofBits, hi, decide_true, Bool.true_and, if_pos hin,
    BitVec.getLsbD_extractLsb', hlow, hbit]

theorem get_put_of_apart {f : Field v} {g : Field w} (h : f.Apart g) (x : BitVec w) (m : Image) : f.get (g.put x m) = f.get m := by
  apply f.get_congr
  intro p hle hlt
  apply g.put_of_outside
  rcases h with h | h <;> omega

end Field

end LibSystemCTLM.Foundation
