import LibSystemCTLM.Foundation.Instances
import Mathlib.Data.BitVec
import Mathlib.Data.List.Basic

/-!
# Byte orders

A string of `n` bytes is a word of `8 * n` bits in either byte order. The word of a string gives the string back
(`bytes_word`) and the string of a word the word (`word_bytes`); a string turned round is the same word in the other
order (`word_reverse`).
-/

namespace LibSystemCTLM.Foundation

/-- The order of the bytes of a word. -/
inductive Endian where
  | little | big
  deriving DecidableEq, Repr

/-- The word of a string, the lowest byte first. -/
def leWord : (n : ℕ) → List (BitVec 8) → BitVec (8 * n)
  | 0, _ => 0
  | n + 1, bs => leWord n bs.tail ++ bs.headD 0

/-- The string of a word, the lowest byte first. -/
def leBytes : (n : ℕ) → BitVec (8 * n) → List (BitVec 8)
  | 0, _ => []
  | n + 1, v => v.setWidth 8 :: leBytes n (v.extractLsb' 8 (8 * n))

@[simp] theorem length_leBytes (n : ℕ) (v : BitVec (8 * n)) : (leBytes n v).length = n := by
  induction n with
  | zero => rfl
  | succ n ih => rw [leBytes, List.length_cons, ih]

theorem leBytes_leWord {n : ℕ} {bs : List (BitVec 8)} (h : bs.length = n) : leBytes n (leWord n bs) = bs := by
  induction n generalizing bs with
  | zero => exact (List.length_eq_zero_iff.1 h).symm
  | succ n ih =>
    obtain ⟨b, bs, rfl⟩ := List.exists_cons_of_length_eq_add_one h
    have hlow : (leWord n bs ++ b).setWidth 8 = b := by
      apply BitVec.eq_of_getLsbD_eq
      intro i hi
      simp [BitVec.getLsbD_append, hi]
    have hhigh : (leWord n bs ++ b).extractLsb' 8 (8 * n) = leWord n bs := by
      apply BitVec.eq_of_getLsbD_eq
      intro i hi
      simp [BitVec.getLsbD_append, hi]
    rw [leWord, leBytes]
    exact congr_arg₂ List.cons hlow ((congrArg (leBytes n) hhigh).trans (ih (by simpa using h)))

theorem leWord_leBytes (n : ℕ) (v : BitVec (8 * n)) : leWord n (leBytes n v) = v := by
  induction n with
  | zero => exact (BitVec.of_length_zero).symm
  | succ n ih =>
    rw [leBytes, leWord, List.tail_cons, ih, List.headD_cons]
    apply BitVec.eq_of_getLsbD_eq
    intro i hi
    rw [BitVec.getLsbD_append]
    by_cases h : i < 8
    · simp [h]
    · simp [h, show i - 8 < 8 * n by omega, show 8 + (i - 8) = i by omega]

namespace Endian

variable {n : ℕ}

/-- The bytes in the order of their weight. -/
def arrange : Endian → List (BitVec 8) → List (BitVec 8)
  | .little, bs => bs
  | .big, bs => bs.reverse

/-- The word of a string. -/
def word (e : Endian) (n : ℕ) (bs : List (BitVec 8)) : BitVec (8 * n) := leWord n (e.arrange bs)

/-- The string of a word. -/
def bytes (e : Endian) (n : ℕ) (v : BitVec (8 * n)) : List (BitVec 8) := e.arrange (leBytes n v)

@[simp] theorem arrange_arrange (e : Endian) (bs : List (BitVec 8)) : e.arrange (e.arrange bs) = bs := by
  cases e with
  | little => rfl
  | big => exact List.reverse_reverse bs

@[simp] theorem length_arrange (e : Endian) (bs : List (BitVec 8)) : (e.arrange bs).length = bs.length := by
  cases e with
  | little => rfl
  | big => exact List.length_reverse

/-- The other order is the same string turned round. -/
theorem arrange_reverse {e e' : Endian} (h : e ≠ e') (bs : List (BitVec 8)) : e.arrange bs.reverse = e'.arrange bs := by
  cases e <;> cases e'
  · exact absurd rfl h
  · rfl
  · exact List.reverse_reverse bs
  · exact absurd rfl h

@[simp] theorem length_bytes (e : Endian) (n : ℕ) (v : BitVec (8 * n)) : (e.bytes n v).length = n := by
  rw [bytes, length_arrange, length_leBytes]

theorem bytes_word (e : Endian) {bs : List (BitVec 8)} (h : bs.length = n) : e.bytes n (e.word n bs) = bs := by
  rw [bytes, word, leBytes_leWord (by rw [length_arrange, h]), arrange_arrange]

theorem word_bytes (e : Endian) (v : BitVec (8 * n)) : e.word n (e.bytes n v) = v := by
  rw [bytes, word, arrange_arrange, leWord_leBytes]

theorem bytes_inj (e : Endian) {v v' : BitVec (8 * n)} : e.bytes n v = e.bytes n v' ↔ v = v' :=
  ⟨fun h => by rw [← e.word_bytes v, h, e.word_bytes], fun h => h ▸ rfl⟩

theorem word_reverse {e e' : Endian} (h : e ≠ e') (bs : List (BitVec 8)) : e.word n bs.reverse = e'.word n bs :=
  congrArg (leWord n) (arrange_reverse h bs)

theorem reverse_bytes {e e' : Endian} (h : e ≠ e') (v : BitVec (8 * n)) : (e.bytes n v).reverse = e'.bytes n v := by
  have hback : e'.word n (e.bytes n v).reverse = v := by rw [word_reverse h.symm, word_bytes]
  rw [← e'.bytes_word (by simp : (e.bytes n v).reverse.length = n), hback]

end Endian

end LibSystemCTLM.Foundation
