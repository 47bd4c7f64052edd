import LibSystemCTLM.Foundation.Instances
import Mathlib.Data.BitVec
import Mathlib.Data.List.Basic

/-!
# Words with fields, and their bytes

A word of 32 bits is made of fields, each shifted to its place and joined by `|||`; a field is read
back from it by a shift and a mask (`getField`), and fields that do not overlap do not disturb each
other (`getField_or`, `getField_same`, `getField_apart`). A list of words is a list of bytes, the
most significant byte of each word first (`bytesOf`), from which the words are read back
(`readWord_bytesOf`).
-/

namespace LibSystemCTLM.Foundation

/-- The `w` low bits. -/
def fieldMask (w : ℕ) : BitVec 32 := (BitVec.allOnes 64 >>> (64 - w)).setWidth 32

/-- The field of `w` bits from bit `s` on. -/
def getField (s w : ℕ) (r : BitVec 32) : BitVec 32 := (r >>> s) &&& fieldMask w

section Fields

variable {s s' w w' : ℕ} {v : BitVec 32}

theorem getLsbD_fieldMask (hw : w ≤ 64) (i : ℕ) : (fieldMask w).getLsbD i = (decide (i < 32) && decide (i < w)) := by
  rw [fieldMask, BitVec.getLsbD_setWidth, BitVec.getLsbD_ushiftRight, BitVec.getLsbD_allOnes]
  by_cases h : i < w
  · simp [h, show 64 - w + i < 64 by omega]
  · simp [h, show ¬ 64 - w + i < 64 by omega]

theorem getLsbD_getField (hw : w ≤ 64) (r : BitVec 32) (i : ℕ) : (getField s w r).getLsbD i = (decide (i < w) && r.getLsbD (s + i)) := by
  rw [getField, BitVec.getLsbD_and, BitVec.getLsbD_ushiftRight, getLsbD_fieldMask hw]
  by_cases h : i < 32
  · simp [h, Bool.and_comm]
  · simp [h, BitVec.getLsbD_of_ge r (s + i) (by omega)]

theorem getField_or (x y : BitVec 32) : getField s w (x ||| y) = getField s w x ||| getField s w y := by
  apply BitVec.eq_of_getLsbD_eq
  intro i _
  simp only [getField, BitVec.getLsbD_and, BitVec.getLsbD_or, BitVec.getLsbD_ushiftRight, Bool.and_or_distrib_right]

theorem getLsbD_eq_false_of_lt {n : ℕ} {v : BitVec n} (hv : v.toNat < 2 ^ w) {i : ℕ} (hi : w ≤ i) : v.getLsbD i = false := by
  rw [← BitVec.testBit_toNat]
  exact Nat.testBit_lt_two_pow (lt_of_lt_of_le hv (Nat.pow_le_pow_right (by decide) hi))

/-- A field that fits is read back from its place. -/
theorem getField_same (hv : v.toNat < 2 ^ w) (hs : s + w ≤ 32) : getField s w (v <<< s) = v := by
  apply BitVec.eq_of_getLsbD_eq
  intro i hi
  rw [getLsbD_getField (by omega), BitVec.getLsbD_shiftLeft]
  by_cases h : i < w
  · simp [h, show s + i < 32 by omega]
  · simp [h, getLsbD_eq_false_of_lt hv (Nat.not_lt.1 h)]

/-- Another field does not show. -/
theorem getField_apart (hv : v.toNat < 2 ^ w') (hw : w ≤ 64) (h : s' + w' ≤ s ∨ s + w ≤ s') : getField s w (v <<< s') = 0 := by
  apply BitVec.eq_of_getLsbD_eq
  intro i hi
  rw [getLsbD_getField hw, BitVec.getLsbD_shiftLeft]
  by_cases hi' : i < w
  · rcases h with h | h
    · simp [getLsbD_eq_false_of_lt hv (show w' ≤ s + i - s' by omega)]
    · simp [show s + i < s' by omega]
  · simp [hi']

theorem getField_lt (hw : w ≤ 32) (r : BitVec 32) : (getField s w r).toNat < 2 ^ w := by
  apply Nat.lt_pow_two_of_testBit
  intro i hi
  rw [BitVec.testBit_toNat, getLsbD_getField (by omega)]
  simp [Nat.not_lt.2 hi]

/-- No bit is left out by the mask exactly when the value fits. -/
theorem and_not_fieldMask (hw : w ≤ 64) : v &&& ~~~ fieldMask w = 0 ↔ v.toNat < 2 ^ w := by
  constructor
  · intro h
    apply Nat.lt_pow_two_of_testBit
    intro i hi
    rw [BitVec.testBit_toNat]
    by_cases hlt : i < 32
    · have hbit := congrArg (fun x : BitVec 32 => x.getLsbD i) h
      have hmask : (fieldMask w).getLsbD i = false := by rw [getLsbD_fieldMask hw, decide_eq_false (Nat.not_lt.2 hi), Bool.and_false]
      rw [BitVec.getLsbD_and, BitVec.getLsbD_not, hmask] at hbit
      simpa [hlt] using hbit
    · exact BitVec.getLsbD_of_ge v i (Nat.not_lt.1 hlt)
  · intro h
    apply BitVec.eq_of_getLsbD_eq
    intro i hi
    rw [BitVec.getLsbD_and, BitVec.getLsbD_not, getLsbD_fieldMask hw]
    by_cases hlt : i < w
    · simp [hi, hlt]
    · simp [getLsbD_eq_false_of_lt h (Nat.not_lt.1 hlt)]

theorem and_fieldMask (hw : w ≤ 64) (h : v.toNat < 2 ^ w) : v &&& fieldMask w = v := by
  apply BitVec.eq_of_getLsbD_eq
  intro i hi
  rw [BitVec.getLsbD_and, getLsbD_fieldMask hw]
  by_cases hlt : i < w
  · simp [hi, hlt]
  · simp [getLsbD_eq_false_of_lt h (Nat.not_lt.1 hlt)]

end Fields

theorem toNat_getField (s w : ℕ) (hw : w ≤ 32) (r : BitVec 32) : (getField s w r).toNat = r.toNat / 2 ^ s % 2 ^ w := by
  have hmask : (fieldMask w).toNat = 2 ^ w - 1 := by
    rw [fieldMask, BitVec.toNat_setWidth, BitVec.toNat_ushiftRight, BitVec.toNat_allOnes, Nat.shiftRight_eq_div_pow]
    have hpow : (2 : ℕ) ^ 64 = 2 ^ w * 2 ^ (64 - w) := by rw [← Nat.pow_add]; congr 1; omega
    have hdiv : (2 ^ 64 - 1) / 2 ^ (64 - w) = 2 ^ w - 1 := by
      have hpos : 0 < 2 ^ (64 - w) := Nat.two_pow_pos _
      have hpos' : 0 < 2 ^ w := Nat.two_pow_pos _
      rw [hpow]
      refine Nat.div_eq_of_lt_le ?_ ?_
      · rw [Nat.sub_mul, Nat.one_mul]
        omega
      · rw [Nat.sub_add_cancel hpos', ← hpow]
        decide
    rw [hdiv]
    have hle : 2 ^ w ≤ 2 ^ 32 := Nat.pow_le_pow_right (by decide) hw
    exact Nat.mod_eq_of_lt (by have := Nat.two_pow_pos w; omega)
  rw [getField, BitVec.toNat_and, BitVec.toNat_ushiftRight, hmask, Nat.and_two_pow_sub_one_eq_mod, Nat.shiftRight_eq_div_pow]

/-! ### Words joined of fields -/

/-- The place of a field. -/
structure BitField where
  shift : ℕ
  width : ℕ
  deriving DecidableEq

namespace BitField

/-- What a word has there. -/
def get (f : BitField) (r : BitVec 32) : BitVec 32 := getField f.shift f.width r

/-- Two places that do not overlap. -/
def Apart (f g : BitField) : Prop := f.shift + f.width ≤ g.shift ∨ g.shift + g.width ≤ f.shift

instance (f g : BitField) : Decidable (Apart f g) := inferInstanceAs (Decidable (_ ∨ _))

/-- The place is in the word, and the value fits in it. -/
def Fits (p : BitField × BitVec 32) : Prop := p.1.shift + p.1.width ≤ 32 ∧ p.2.toNat < 2 ^ p.1.width

end BitField

/-- The word of some fields. -/
def join (fs : List (BitField × BitVec 32)) : BitVec 32 := fs.foldr (fun p r => (p.2 <<< p.1.shift) ||| r) 0

section Join

variable {f : BitField} {fs : List (BitField × BitVec 32)} {v : BitVec 32}

theorem join_cons (p : BitField × BitVec 32) (fs : List (BitField × BitVec 32)) : join (p :: fs) = (p.2 <<< p.1.shift) ||| join fs := rfl

/-- A place where no field is, is clear. -/
theorem get_join_of_apart (hfit : ∀ p ∈ fs, BitField.Fits p) (hf : f.shift + f.width ≤ 32) (h : ∀ p ∈ fs, f.Apart p.1) : f.get (join fs) = 0 := by
  induction fs with
  | nil =>
    show 0#32 >>> f.shift &&& fieldMask f.width = 0#32
    simp
  | cons p fs ih =>
    have hp := hfit p List.mem_cons_self
    have hzero : getField f.shift f.width (p.2 <<< p.1.shift) = 0 := getField_apart hp.2 (by omega) (h p List.mem_cons_self).symm
    have hrest := ih (fun q hq => hfit q (List.mem_cons_of_mem _ hq)) fun q hq => h q (List.mem_cons_of_mem _ hq)
    rw [BitField.get] at hrest ⊢
    rw [join_cons, getField_or, hzero, hrest]
    rfl

/-- **A word that is joined of fields has each of them.** -/
theorem get_join (hfit : ∀ p ∈ fs, BitField.Fits p) (hapart : (fs.map Prod.fst).Pairwise BitField.Apart) (h : (f, v) ∈ fs) : f.get (join fs) = v := by
  induction fs with
  | nil => cases h
  | cons p fs ih =>
    obtain ⟨hhead, htail⟩ := List.pairwise_cons.1 hapart
    have hfits := fun q hq => hfit q (List.mem_cons_of_mem p hq)
    rcases List.mem_cons.1 h with rfl | hmem
    · have hp := hfit (f, v) List.mem_cons_self
      have hrest := get_join_of_apart (f := f) hfits hp.1 fun q hq => hhead q.1 (List.mem_map_of_mem hq)
      rw [BitField.get] at hrest ⊢
      rw [join_cons, getField_or, getField_same hp.2 hp.1, hrest]
      exact BitVec.or_zero
    · have hp := hfit p List.mem_cons_self
      have hf : f.shift + f.width ≤ 32 := (hfits (f, v) hmem).1
      have hzero : getField f.shift f.width (p.2 <<< p.1.shift) = 0 :=
        getField_apart hp.2 (by omega) (hhead f (List.mem_map_of_mem hmem))
      have hrest := ih hfits htail hmem
      rw [BitField.get] at hrest ⊢
      rw [join_cons, getField_or, hzero, hrest]
      exact BitVec.zero_or

/-- A field that was left clear is set later. -/
theorem join_or (l r : List (BitField × BitVec 32)) (f : BitField) (v : BitVec 32) :
    join (l ++ (f, 0) :: r) ||| v <<< f.shift = join (l ++ (f, v) :: r) := by
  induction l with
  | nil =>
    show 0#32 <<< f.shift ||| join r ||| v <<< f.shift = v <<< f.shift ||| join r
    rw [BitVec.zero_shiftLeft, BitVec.zero_or, BitVec.or_comm]
  | cons p l ih => rw [List.cons_append, join_cons, BitVec.or_assoc, ih, List.cons_append, join_cons]

end Join

/-! ### Bytes -/

/-- The bytes of a word, the most significant one first. -/
def wordBytes (v : BitVec 32) : List (BitVec 8) := [(v >>> 24).setWidth 8, (v >>> 16).setWidth 8, (v >>> 8).setWidth 8, v.setWidth 8]

/-- The word of four bytes. -/
def word32 (a b c d : BitVec 8) : BitVec 32 := (a.setWidth 32 <<< 24) ||| (b.setWidth 32 <<< 16) ||| (c.setWidth 32 <<< 8) ||| d.setWidth 32

/-- The bytes of a list of words. -/
def bytesOf (ws : List (BitVec 32)) : List (BitVec 8) := ws.flatMap wordBytes

/-- The word that begins at a byte. -/
def readWord (m : List (BitVec 8)) (pos : ℕ) : Option (BitVec 32) := do
  return word32 (← m[pos]?) (← m[pos + 1]?) (← m[pos + 2]?) (← m[pos + 3]?)

theorem getLsbD_word32 (a b c d : BitVec 8) (i : ℕ) : (word32 a b c d).getLsbD i =
    if i < 8 then d.getLsbD i else if i < 16 then c.getLsbD (i - 8) else if i < 24 then b.getLsbD (i - 16) else a.getLsbD (i - 24) := by
  simp only [word32, BitVec.getLsbD_or, BitVec.getLsbD_shiftLeft, BitVec.getLsbD_setWidth]
  by_cases h₁ : i < 8
  · simp [h₁, show i < 16 by omega, show i < 24 by omega, show i < 32 by omega]
  · by_cases h₂ : i < 16
    · simp [h₁, h₂, show i < 24 by omega, show i < 32 by omega, show i - 8 < 32 by omega, BitVec.getLsbD_of_ge d i (by omega)]
    · by_cases h₃ : i < 24
      · simp [h₁, h₂, h₃, show i < 32 by omega, show i - 16 < 32 by omega, BitVec.getLsbD_of_ge d i (by omega),
          BitVec.getLsbD_of_ge c (i - 8) (by omega)]
      · by_cases h₄ : i < 32
        · simp [h₁, h₂, h₃, h₄, show i - 24 < 32 by omega, BitVec.getLsbD_of_ge d i (by omega), BitVec.getLsbD_of_ge c (i - 8) (by omega),
            BitVec.getLsbD_of_ge b (i - 16) (by omega)]
        · simp [h₁, h₂, h₃, h₄, BitVec.getLsbD_of_ge a (i - 24) (by omega), BitVec.getLsbD_of_ge d i (by omega)]

theorem word32_wordBytes (v : BitVec 32) : word32 ((v >>> 24).setWidth 8) ((v >>> 16).setWidth 8) ((v >>> 8).setWidth 8) (v.setWidth 8) = v := by
  apply BitVec.eq_of_getLsbD_eq
  intro i hi
  rw [getLsbD_word32]
  simp only [BitVec.getLsbD_setWidth, BitVec.getLsbD_ushiftRight]
  by_cases h₁ : i < 8
  · simp [h₁]
  · by_cases h₂ : i < 16
    · simp [h₁, h₂, show i - 8 < 8 by omega, show 8 + (i - 8) = i by omega]
    · by_cases h₃ : i < 24
      · simp [h₁, h₂, h₃, show i - 16 < 8 by omega, show 16 + (i - 16) = i by omega]
      · simp [h₁, h₂, h₃, show i - 24 < 8 by omega, show 24 + (i - 24) = i by omega]

theorem wordBytes_word32 (a b c d : BitVec 8) : wordBytes (word32 a b c d) = [a, b, c, d] := by
  have hbyte : ∀ (s : ℕ) (x : BitVec 8), (∀ i < 8, (word32 a b c d).getLsbD (s + i) = x.getLsbD i) →
      (word32 a b c d >>> s).setWidth 8 = x := fun s x h => by
    apply BitVec.eq_of_getLsbD_eq
    intro i hi
    rw [BitVec.getLsbD_setWidth, BitVec.getLsbD_ushiftRight, h i hi]
    simp [hi]
  have h0 : (word32 a b c d).setWidth 8 = d := hbyte 0 d fun i hi => by rw [getLsbD_word32, Nat.zero_add, if_pos hi]
  have h8 := hbyte 8 c fun i hi => by
    rw [getLsbD_word32, if_neg (by omega), if_pos (by omega), Nat.add_sub_cancel_left]
  have h16 := hbyte 16 b fun i hi => by
    rw [getLsbD_word32, if_neg (by omega), if_neg (by omega), if_pos (by omega), Nat.add_sub_cancel_left]
  have h24 := hbyte 24 a fun i hi => by
    rw [getLsbD_word32, if_neg (by omega), if_neg (by omega), if_neg (by omega), Nat.add_sub_cancel_left]
  rw [wordBytes, h0, h8, h16, h24]

theorem getD_wordBytes (v : BitVec 32) {j : ℕ} (hj : j < 4) : (wordBytes v).getD j 0 = (v >>> (24 - 8 * j)).setWidth 8 := by
  match j with
  | 0 => rfl
  | 1 => rfl
  | 2 => rfl
  | 3 => rw [show 24 - 8 * 3 = 0 from rfl, BitVec.ushiftRight_zero]; rfl

/-- Shifting a word by bytes brings later bytes to the front. -/
theorem wordBytes_shiftLeft (v : BitVec 32) (k : ℕ) {j : ℕ} (hj : j < 4) :
    (wordBytes (v <<< (k * 8))).getD j 0 = if k + j < 4 then (wordBytes v).getD (k + j) 0 else 0 := by
  rw [getD_wordBytes _ hj]
  apply BitVec.eq_of_getLsbD_eq
  intro i hi
  rw [BitVec.getLsbD_setWidth, BitVec.getLsbD_ushiftRight, BitVec.getLsbD_shiftLeft]
  split
  · rename_i h
    rw [getD_wordBytes _ h, BitVec.getLsbD_setWidth, BitVec.getLsbD_ushiftRight]
    simp [hi, show 24 - 8 * j + i < 32 by omega, show ¬ 24 - 8 * j + i < k * 8 by omega,
      show 24 - 8 * j + i - k * 8 = 24 - 8 * (k + j) + i by omega]
  · simp [show 24 - 8 * j + i < k * 8 by omega]

@[simp] theorem bytesOf_nil : bytesOf [] = [] := rfl

@[simp] theorem bytesOf_cons (v : BitVec 32) (ws : List (BitVec 32)) : bytesOf (v :: ws) = wordBytes v ++ bytesOf ws := rfl

theorem bytesOf_append (l ws : List (BitVec 32)) : bytesOf (l ++ ws) = bytesOf l ++ bytesOf ws := List.flatMap_append ..

@[simp] theorem length_bytesOf (ws : List (BitVec 32)) : (bytesOf ws).length = 4 * ws.length := by
  induction ws with
  | nil => rfl
  | cons v ws ih =>
    rw [bytesOf_cons, List.length_append, ih, List.length_cons]
    show 4 + _ = _
    omega

/-- There is a word where four bytes are left. -/
theorem exists_readWord_iff {m : List (BitVec 8)} {pos : ℕ} : (∃ v, readWord m pos = some v) ↔ pos + 4 ≤ m.length := by
  unfold readWord
  constructor
  · rintro ⟨v, hv⟩
    simp only [Option.bind_eq_bind, Option.bind_eq_some_iff] at hv
    obtain ⟨_, _, _, _, _, _, d, hd, _⟩ := hv
    have hlast := (List.getElem?_eq_some_iff.1 hd).1
    omega
  · intro h
    rw [List.getElem?_eq_getElem (show pos < m.length by omega), List.getElem?_eq_getElem (show pos + 1 < m.length by omega),
      List.getElem?_eq_getElem (show pos + 2 < m.length by omega), List.getElem?_eq_getElem (show pos + 3 < m.length by omega)]
    exact ⟨_, rfl⟩

theorem readWord_append (l m : List (BitVec 8)) (pos : ℕ) : readWord (l ++ m) (l.length + pos) = readWord m pos := by
  have hget : ∀ j, (l ++ m)[l.length + pos + j]? = m[pos + j]? := fun j => by
    rw [List.getElem?_append_right (by omega)]
    congr 1
    omega
  unfold readWord
  rw [hget 1, hget 2, hget 3]
  have h0 := hget 0
  rw [Nat.add_zero, Nat.add_zero] at h0
  rw [h0]

/-- **The words are read back from their bytes.** -/
theorem readWord_bytesOf (ws : List (BitVec 32)) (k : ℕ) : readWord (bytesOf ws) (4 * k) = ws[k]? := by
  induction ws generalizing k with
  | nil => rfl
  | cons v ws ih =>
    cases k with
    | zero =>
      rw [List.getElem?_cons_zero]
      exact congrArg some (word32_wordBytes v)
    | succ k =>
      rw [bytesOf_cons, List.getElem?_cons_succ, ← ih, show 4 * (k + 1) = (wordBytes v).length + 4 * k by show _ = 4 + _; omega]
      exact readWord_append ..

/-! ### Arrays of bytes -/

/-- The words of an array. -/
def arrayWords (f : ℕ → BitVec 8) (n : ℕ) : List (BitVec 32) :=
  (List.range n).map fun k => word32 (f (4 * k)) (f (4 * k + 1)) (f (4 * k + 2)) (f (4 * k + 3))

@[simp] theorem length_arrayWords (f : ℕ → BitVec 8) (n : ℕ) : (arrayWords f n).length = n := by simp [arrayWords]

theorem bytesOf_arrayWords (f : ℕ → BitVec 8) (n : ℕ) : bytesOf (arrayWords f n) = (List.range (4 * n)).map f := by
  induction n with
  | zero => rfl
  | succ n ih =>
    have hone : arrayWords f (n + 1) = arrayWords f n ++ [word32 (f (4 * n)) (f (4 * n + 1)) (f (4 * n + 2)) (f (4 * n + 3))] := by
      rw [arrayWords, List.range_succ, List.map_append]
      rfl
    rw [hone, bytesOf_append, ih, bytesOf_cons, wordBytes_word32, bytesOf_nil, List.append_nil, show 4 * (n + 1) = 4 * n + 1 + 1 + 1 + 1 by omega,
      List.range_succ, List.range_succ, List.range_succ, List.range_succ]
    simp

/-- **The bytes of an array are found where they were put.** -/
theorem getElem?_arrayWords (l : List (BitVec 32)) (f : ℕ → BitVec 8) (n : ℕ) (r : List (BitVec 32)) {i : ℕ} (hi : i < 4 * n) :
    (bytesOf (l ++ arrayWords f n ++ r))[4 * l.length + i]? = some (f i) := by
  rw [bytesOf_append, bytesOf_append, List.append_assoc, List.getElem?_append_right (by simp), length_bytesOf, Nat.add_sub_cancel_left,
    bytesOf_arrayWords, List.getElem?_append_left (by simpa using hi)]
  simp [hi]

end LibSystemCTLM.Foundation
