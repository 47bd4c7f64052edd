import LibSystemCTLM.Foundation.Instances
import Mathlib.Data.BitVec
import Mathlib.Logic.Function.Basic
import Mathlib.Data.List.Basic

/-!
# Random values of a configuration

A field with the annotation `@Random(size = .., lBound = .., uBound = ..)` is inflated with `rand() % uBound + lBound`,
of which an array takes one for each byte, and a field of 64 bits one for each half. The values lie above `lBound`, and
there are `uBound` of them, so the range is met only where the bounds make up for that (`bounds_iff`): with a lower
bound of one, or, as `rand` is below 2^31, with bounds that lie as far apart. The halves of 64 bits never meet it.
-/

namespace LibSystemCTLM.Traffic

/-- One more than `RAND_MAX`. -/
def randSpan : ℕ := 2 ^ 31

/-- What an annotation gives; its seed says which sequence `rand` returns. -/
structure Annotation where
  size : Option (BitVec 64) := none
  lBound : Option (BitVec 64) := none
  uBound : Option (BitVec 64) := none

/-- `RandomInflator`. -/
structure RandomInflator where
  size : BitVec 64
  lBound : BitVec 64
  uBound : BitVec 64

/-- `getParams`, over the defaults of an `inflate`. -/
def Annotation.getParams (a : Annotation) (p : RandomInflator) : RandomInflator where
  size := a.size.getD p.size
  lBound := a.lBound.getD p.lBound
  uBound := a.uBound.getD p.uBound

namespace RandomInflator

variable (p : RandomInflator)

/-- `rand() % uBound + lBound`; `none` is a division by zero. -/
def draw (r : ℕ) : Option (BitVec 64) :=
  if p.uBound = 0 then none else some (BitVec.ofNat 64 (r % p.uBound.toNat) + p.lBound)

/-- The loop of the array: its counter has 32 bits, the size 64. Without fuel there is no result. -/
def fillArray (size : ℕ) (rand : ℕ → ℕ) : ℕ → ℕ → BitVec 32 → (ℕ → Option (BitVec 8)) → Option (ℕ → Option (BitVec 8))
  | 0, _, _, _ => none
  | fuel + 1, calls, i, val =>
    if i.toNat < size then
      (p.draw (rand calls)).bind fun v => fillArray size rand fuel (calls + 1) (i + 1) (Function.update val i.toNat (some (v.setWidth 8)))
    else some val

variable {p}

theorem draw_eq {r : ℕ} (hu : p.uBound ≠ 0) : p.draw r = some (BitVec.ofNat 64 (r % p.uBound.toNat) + p.lBound) :=
  if_neg hu

/-- A draw that has room in `w` bits. -/
theorem toNat_draw {r w : ℕ} (hw : w ≤ 64) (hroom : r % p.uBound.toNat + p.lBound.toNat < 2 ^ w) :
    ((BitVec.ofNat 64 (r % p.uBound.toNat) + p.lBound).setWidth w).toNat = r % p.uBound.toNat + p.lBound.toNat := by
  have hle : 2 ^ w ≤ 2 ^ 64 := Nat.pow_le_pow_right (by decide) hw
  rw [BitVec.toNat_setWidth, BitVec.toNat_add, BitVec.toNat_ofNat, Nat.mod_add_mod, Nat.mod_eq_of_lt (Nat.lt_of_lt_of_le hroom hle),
    Nat.mod_eq_of_lt hroom]

/-- The loop over at most 2^32 - 1 bytes writes each of them, with a draw of its own. -/
theorem fillArray_eq_some_iff {size fuel c : ℕ} {rand : ℕ → ℕ} {val val' : ℕ → Option (BitVec 8)} (hu : p.uBound ≠ 0)
    (hsize : size < 2 ^ 32) (hc : c ≤ size) :
    p.fillArray size rand fuel c (BitVec.ofNat 32 c) val = some val' ↔ size - c < fuel ∧
      val' = fun k => if c ≤ k ∧ k < size then some ((BitVec.ofNat 64 (rand k % p.uBound.toNat) + p.lBound).setWidth 8) else val k := by
  induction fuel generalizing c val with
  | zero => simp [fillArray]
  | succ fuel ih =>
    have htoNat : (BitVec.ofNat 32 c).toNat = c := by
      rw [BitVec.toNat_ofNat, Nat.mod_eq_of_lt (Nat.lt_of_le_of_lt hc hsize)]
    rw [fillArray, htoNat]
    by_cases hlt : c < size
    · rw [if_pos hlt, draw_eq hu, Option.bind_some, show BitVec.ofNat 32 c + 1 = BitVec.ofNat 32 (c + 1) from (BitVec.ofNat_add c 1).symm,
        ih hlt]
      refine and_congr (by omega) (Eq.congr_right (funext fun k => ?_))
      by_cases hk : k = c
      · subst hk
        rw [if_neg (by omega), if_pos ⟨Nat.le_refl _, hlt⟩, Function.update_self]
      · rw [Function.update_of_ne hk]
        exact if_congr (by omega) rfl rfl
    · rw [if_neg hlt, Option.some.injEq]
      constructor
      · rintro rfl
        exact ⟨by omega, funext fun k => (if_neg (by omega)).symm⟩
      · rintro ⟨-, rfl⟩
        exact funext fun k => (if_neg (by omega)).symm

/-- A counter of 32 bits does not reach a larger size. -/
theorem fillArray_of_le {size : ℕ} {rand : ℕ → ℕ} (hsize : 2 ^ 32 ≤ size) (fuel calls : ℕ) (i : BitVec 32) (val : ℕ → Option (BitVec 8)) :
    p.fillArray size rand fuel calls i val = none := by
  induction fuel generalizing calls i val with
  | zero => rfl
  | succ fuel ih =>
    rw [fillArray, if_pos (Nat.lt_of_lt_of_le i.isLt hsize)]
    cases p.draw (rand calls) with
    | none => rfl
    | some v => exact ih _ _ _

theorem fillArray_of_zero {size : ℕ} {rand : ℕ → ℕ} (hu : p.uBound = 0) (hsize : 0 < size) (fuel calls : ℕ) (val : ℕ → Option (BitVec 8)) :
    p.fillArray size rand fuel calls 0 val = none := by
  cases fuel with
  | zero => rfl
  | succ fuel => rw [fillArray, if_pos (by simpa using hsize), draw, if_pos hu, Option.bind_none]

end RandomInflator

/-- **The range of the draws**: without an overflow they are all between the bounds, and all there are, exactly if the
lower bound makes up for what is missing above. -/
theorem bounds_iff {l u : ℕ} (hle : l ≤ u) (hu : u ≠ 0) :
    ((∀ r < randSpan, l ≤ r % u + l ∧ r % u + l ≤ u) ∧ ∀ v, l ≤ v → v ≤ u → ∃ r < randSpan, r % u + l = v) ↔
      l + min u randSpan = u + 1 := by
  have hspan : 0 < randSpan := by decide
  have hmod : ∀ r < randSpan, r % u < min u randSpan := fun r hr =>
    lt_min (Nat.mod_lt _ (Nat.pos_of_ne_zero hu)) (Nat.lt_of_le_of_lt (Nat.mod_le _ _) hr)
  constructor
  · rintro ⟨hin, hall⟩
    obtain ⟨r, hr, hru⟩ := hall u hle (Nat.le_refl _)
    have hmax := (hin (min u randSpan - 1) (by omega)).2
    rw [Nat.mod_eq_of_lt (by omega)] at hmax
    have := hmod r hr
    omega
  · intro h
    refine ⟨fun r hr => ⟨Nat.le_add_left _ _, ?_⟩, fun v hlo hhi => ⟨v - l, by omega, ?_⟩⟩
    · have := hmod r hr
      omega
    · rw [Nat.mod_eq_of_lt (by omega)]
      omega

variable (a : Annotation) (rand : ℕ → ℕ)

/-- `inflate` of an array of `arrayLen` bytes: what is written to each of them. -/
def inflateArray (arrayLen fuel : ℕ) : Option (ℕ → Option (BitVec 8)) :=
  let p := a.getParams ⟨0, 0x00, 0xFF⟩
  p.fillArray (min p.size.toNat arrayLen) rand fuel 0 0 fun _ => none

/-- `inflate` of a bool. -/
def inflateBool : Option Bool :=
  ((a.getParams ⟨0, 0, 1⟩).draw (rand 0)).map fun v => decide (v ≠ 0)

/-- `inflate` of a uint32_t. -/
def inflateUint32 : Option (BitVec 32) :=
  ((a.getParams ⟨0, 0, 0xFFFFFFFF⟩).draw (rand 0)).map (BitVec.setWidth 32)

/-- `inflate` of a uint64_t. -/
def inflateUint64 : Option (BitVec 64) :=
  ((a.getParams ⟨0, 0, 0xFFFFFFFF⟩).draw (rand 0)).bind fun high =>
    ((a.getParams ⟨0, 0, 0xFFFFFFFF⟩).draw (rand 1)).map fun low => high <<< 32 ||| low

/-- `inflate` of a uint8_t. -/
def inflateUint8 : Option (BitVec 8) :=
  ((a.getParams ⟨0, 0, 0xFF⟩).draw (rand 0)).map (BitVec.setWidth 8)

/-- The types of fields that can have the annotation. -/
inductive Field where
  | array (arrayLen : ℕ)
  | bool | uint32 | uint64 | uint8

namespace Field

/-- The largest value of an element. -/
def max : Field → ℕ
  | .array _ => 2 ^ 8 - 1
  | .bool => 1
  | .uint32 => 2 ^ 32 - 1
  | .uint64 => 2 ^ 64 - 1
  | .uint8 => 2 ^ 8 - 1

/-- The largest number for which a single draw has room. -/
def drawMax : Field → ℕ
  | .uint64 => 2 ^ 32 - 1
  | f => f.max

/-- The bounds and the size that `inflate` works with. -/
def params : Field → RandomInflator
  | .array _ => a.getParams ⟨0, 0x00, 0xFF⟩
  | .bool => a.getParams ⟨0, 0, 1⟩
  | .uint32 => a.getParams ⟨0, 0, 0xFFFFFFFF⟩
  | .uint64 => a.getParams ⟨0, 0, 0xFFFFFFFF⟩
  | .uint8 => a.getParams ⟨0, 0, 0xFF⟩

/-- How many elements are to be written. -/
def count (f : Field) : ℕ :=
  match f with
  | .array arrayLen => min (f.params a).size.toNat arrayLen
  | _ => 1

/-- `inflate` returns, with these values and no others written. -/
def Inflates (f : Field) (vs : List ℕ) : Prop :=
  match f with
  | .array arrayLen => ∃ fuel val, inflateArray a rand arrayLen fuel = some val ∧
      (∀ k < f.count a, (val k).map BitVec.toNat = vs[k]?) ∧ vs.length = f.count a ∧ ∀ k, f.count a ≤ k → val k = none
  | .bool => ∃ v, inflateBool a rand = some v ∧ vs = [v.toNat]
  | .uint32 => ∃ v, inflateUint32 a rand = some v ∧ vs = [v.toNat]
  | .uint64 => ∃ v, inflateUint64 a rand = some v ∧ vs = [v.toNat]
  | .uint8 => ∃ v, inflateUint8 a rand = some v ∧ vs = [v.toNat]

variable {a rand} {f : Field} {vs : List ℕ}

theorem toNat_decide_ne {v : BitVec 64} (h : v.toNat ≤ 1) : (decide (v ≠ 0)).toNat = v.toNat := by
  by_cases hv : v = 0
  · subst hv
    rfl
  · have hpos : v.toNat ≠ 0 := fun h0 => hv (BitVec.eq_of_toNat_eq h0)
    rw [decide_eq_true hv]
    exact (show v.toNat = 1 by omega).symm

theorem single_iff {α : Type} {p : RandomInflator} {g : BitVec 64 → α} {toNat : α → ℕ} {r n : ℕ} (hu : p.uBound ≠ 0)
    (hg : toNat (g (BitVec.ofNat 64 (r % p.uBound.toNat) + p.lBound)) = n) :
    (∃ v, (p.draw r).map g = some v ∧ vs = [toNat v]) ↔ vs = [n] := by
  rw [RandomInflator.draw_eq hu, ← hg]
  constructor
  · rintro ⟨v, hv, rfl⟩
    rw [← Option.some.inj hv]
  · rintro rfl
    exact ⟨_, rfl, rfl⟩

/-- **What is inflated**: element by element the draws, if none of them divides by zero or overflows. -/
theorem inflates_iff (hf : f ≠ .uint64) (hu : (f.params a).uBound ≠ 0)
    (hroom : ∀ i, rand i % (f.params a).uBound.toNat + (f.params a).lBound.toNat ≤ f.max) (hcount : f.count a < 2 ^ 32) :
    f.Inflates a rand vs ↔ vs = (List.range (f.count a)).map fun k => rand k % (f.params a).uBound.toNat + (f.params a).lBound.toNat := by
  cases f with
  | uint64 => exact absurd rfl hf
  | array arrayLen =>
    have hdraw : ∀ k, ((BitVec.ofNat 64 (rand k % ((Field.array arrayLen).params a).uBound.toNat) +
        ((Field.array arrayLen).params a).lBound).setWidth 8).toNat =
          rand k % ((Field.array arrayLen).params a).uBound.toNat + ((Field.array arrayLen).params a).lBound.toNat :=
      fun k => RandomInflator.toNat_draw (by decide) (Nat.lt_succ_of_le (hroom k))
    constructor
    · rintro ⟨fuel, val, hval, hin, hlen, -⟩
      obtain ⟨-, rfl⟩ := (RandomInflator.fillArray_eq_some_iff hu hcount (Nat.zero_le _)).1 hval
      refine List.ext_getElem? fun k => ?_
      rw [List.getElem?_map]
      by_cases hk : k < (Field.array arrayLen).count a
      · have hk' := hin k hk
        simp only [if_pos (And.intro (Nat.zero_le k) hk), Option.map_some, hdraw] at hk'
        rw [← hk', List.getElem?_range hk, Option.map_some]
      · rw [List.getElem?_eq_none (by omega), List.getElem?_eq_none (by simpa using hk), Option.map_none]
    · rintro rfl
      refine ⟨(Field.array arrayLen).count a + 1, _, (RandomInflator.fillArray_eq_some_iff hu hcount (Nat.zero_le _)).2 ⟨by omega, rfl⟩,
        fun k hk => ?_, by simp, fun k hk => if_neg (by omega)⟩
      simp only [if_pos (And.intro (Nat.zero_le k) hk), Option.map_some, hdraw, List.getElem?_map, List.getElem?_range hk]
  | bool =>
    have hdraw := RandomInflator.toNat_draw (p := Field.bool.params a) (w := 64) (Nat.le_refl _) (Nat.lt_of_le_of_lt (hroom 0) (by decide))
    rw [BitVec.setWidth_eq] at hdraw
    exact single_iff hu ((toNat_decide_ne (hdraw ▸ hroom 0)).trans hdraw)
  | uint32 => exact single_iff hu (RandomInflator.toNat_draw (by decide) (Nat.lt_of_le_of_lt (hroom 0) (by decide)))
  | uint8 => exact single_iff hu (RandomInflator.toNat_draw (by decide) (Nat.lt_of_le_of_lt (hroom 0) (by decide)))

theorem inflates_nil {arrayLen : ℕ} (h : (Field.array arrayLen).count a = 0) : (Field.array arrayLen).Inflates a rand [] := by
  refine ⟨1, fun _ => none, ?_, fun k hk => absurd (h ▸ hk) (Nat.not_lt_zero k), h.symm, fun _ _ => rfl⟩
  change ((Field.array arrayLen).params a).fillArray ((Field.array arrayLen).count a) rand 1 0 0 _ = _
  rw [h]
  rfl

theorem not_inflates_of_zero (hu : (f.params a).uBound = 0) (hcount : 0 < f.count a) : ¬f.Inflates a rand vs := by
  have hdraw : ∀ r, (f.params a).draw r = none := fun r => if_pos hu
  cases f with
  | array arrayLen =>
    rintro ⟨fuel, val, hval, -⟩
    exact absurd (hval.symm.trans (RandomInflator.fillArray_of_zero hu hcount fuel 0 _)) (Option.some_ne_none _)
  | bool =>
    rintro ⟨v, hv, -⟩
    exact absurd (hv.symm.trans (congrArg (Option.map _) (hdraw (rand 0)))) (Option.some_ne_none _)
  | uint32 =>
    rintro ⟨v, hv, -⟩
    exact absurd (hv.symm.trans (congrArg (Option.map _) (hdraw (rand 0)))) (Option.some_ne_none _)
  | uint64 =>
    rintro ⟨v, hv, -⟩
    exact absurd (hv.symm.trans (congrArg (Option.bind · _) (hdraw (rand 0)))) (Option.some_ne_none _)
  | uint8 =>
    rintro ⟨v, hv, -⟩
    exact absurd (hv.symm.trans (congrArg (Option.map _) (hdraw (rand 0)))) (Option.some_ne_none _)

end Field

/-- A field with an annotation whose bounds are in order and representable. -/
structure Request where
  field : Field
  annotation : Annotation
  le : (field.params annotation).lBound.toNat ≤ (field.params annotation).uBound.toNat
  fits : (field.params annotation).uBound.toNat ≤ field.max

namespace Request

variable (q : Request)

def params : RandomInflator := q.field.params q.annotation

/-- The bounds, and the number of elements. -/
def lower : ℕ := q.params.lBound.toNat

def upper : ℕ := q.params.uBound.toNat

def count : ℕ := q.field.count q.annotation

/-- Whatever `rand` returns the values are within the bounds, each value within them can come out at each place, and no
draw overflows. -/
def Right : Prop :=
  (∀ rand, (∀ i, rand i < randSpan) → ∃ vs, q.field.Inflates q.annotation rand vs ∧ ∀ v ∈ vs, q.lower ≤ v ∧ v ≤ q.upper) ∧
  (∀ v, q.lower ≤ v → v ≤ q.upper → ∀ k < q.count, ∃ rand, (∀ i, rand i < randSpan) ∧ ∃ vs, q.field.Inflates q.annotation rand vs ∧
    vs[k]? = some v) ∧
  (0 < q.count → ∀ r < randSpan, r % q.upper + q.lower ≤ q.field.drawMax)

/-- There are as many values from the lower bound to the upper one as there are draws. -/
def Met : Prop := q.lower + min q.upper randSpan = q.upper + 1

/-- The condition of each type. -/
def Clear : Prop :=
  match q.field with
  | .array _ => q.count = 0 ∨ (q.count < 2 ^ 32 ∧ q.Met)
  | .uint64 => False
  | _ => q.Met

variable {q}

theorem upper_ne_zero (h : q.Right) (hpos : 0 < q.count) : q.params.uBound ≠ 0 := by
  intro hu
  obtain ⟨vs, hvs, -⟩ := h.1 (fun _ => 0) fun _ => (by decide : 0 < randSpan)
  exact Field.not_inflates_of_zero hu hpos hvs

theorem upper_eq_zero_iff : q.upper = 0 ↔ q.params.uBound = 0 := by
  rw [upper, BitVec.toNat_eq]
  rfl

/-- A type whose elements are one draw each. -/
theorem right_iff_met (hf : q.field ≠ .uint64) (hpos : 0 < q.count) (hlt : q.count < 2 ^ 32) : q.Right ↔ q.Met := by
  have hmax : q.field.drawMax = q.field.max := by
    cases hq : q.field with
    | uint64 => exact absurd hq hf
    | _ => rfl
  have hvs : q.upper ≠ 0 → ∀ {rand : ℕ → ℕ} {vs : List ℕ}, (∀ i, rand i % q.upper + q.lower ≤ q.field.max) →
      (q.field.Inflates q.annotation rand vs ↔ vs = (List.range q.count).map fun k => rand k % q.upper + q.lower) :=
    fun hu _ _ hroom => Field.inflates_iff hf (fun h => hu (upper_eq_zero_iff.2 h)) hroom hlt
  constructor
  · intro h
    have hu : q.upper ≠ 0 := fun h0 => upper_ne_zero h hpos (upper_eq_zero_iff.1 h0)
    have hroom : ∀ r < randSpan, r % q.upper + q.lower ≤ q.field.max := fun r hr => hmax ▸ h.2.2 hpos r hr
    refine (bounds_iff q.le hu).1 ⟨fun r hr => ?_, fun v hlo hhi => ?_⟩
    · obtain ⟨vs, hin, hbounds⟩ := h.1 (fun _ => r) fun _ => hr
      rw [(hvs hu fun _ => hroom r hr).1 hin] at hbounds
      exact hbounds _ (List.mem_map.2 ⟨0, List.mem_range.2 hpos, rfl⟩)
    · obtain ⟨rand, hrand, vs, hin, hv⟩ := h.2.1 v hlo hhi 0 hpos
      rw [(hvs hu fun i => hroom _ (hrand i)).1 hin, List.getElem?_map, List.getElem?_range hpos] at hv
      exact ⟨rand 0, hrand 0, Option.some.inj hv⟩
  · intro h
    have hle : q.lower ≤ q.upper := q.le
    have hu : q.upper ≠ 0 := by
      intro h0
      unfold Met at h
      rw [h0, Nat.zero_min] at h
      exact absurd (h0 ▸ hle : q.lower ≤ 0) (by omega)
    obtain ⟨hin, hall⟩ := (bounds_iff hle hu).2 h
    have hroom : ∀ r < randSpan, r % q.upper + q.lower ≤ q.field.max := fun r hr => Nat.le_trans (hin r hr).2 q.fits
    refine ⟨fun rand hrand => ⟨_, (hvs hu fun i => hroom _ (hrand i)).2 rfl, fun v hv => ?_⟩, fun v hlo hhi k hk => ?_, fun _ r hr => ?_⟩
    · obtain ⟨k, -, rfl⟩ := List.mem_map.1 hv
      exact hin _ (hrand k)
    · obtain ⟨r, hr, rfl⟩ := hall v hlo hhi
      refine ⟨fun _ => r, fun _ => hr, _, (hvs hu fun _ => hroom r hr).2 rfl, ?_⟩
      rw [List.getElem?_map, List.getElem?_range hk, Option.map_some]
    · exact hmax ▸ hroom r hr

/-- Two halves without an overflow do not reach the number of the draws. -/
theorem not_right_uint64 (hf : q.field = .uint64) : ¬q.Right := by
  intro h
  obtain ⟨field, a, hle, hfits⟩ := q
  obtain rfl : field = .uint64 := hf
  have hu : (Field.uint64.params a).uBound ≠ 0 := upper_ne_zero h (by decide : 0 < 1)
  set p := Field.uint64.params a
  have hpos : 0 < p.uBound.toNat := Nat.pos_of_ne_zero fun h0 => hu (BitVec.eq_of_toNat_eq h0)
  have hroom : ∀ r < randSpan, r % p.uBound.toNat + p.lBound.toNat < 2 ^ 32 := fun r hr => Nat.lt_succ_of_le (h.2.2 (by decide : 0 < 1) r hr)
  have hvalue : ∀ v, p.lBound.toNat ≤ v → v ≤ p.uBound.toNat → ∃ r₀, ∃ r₁ < randSpan,
      2 ^ 32 * (r₀ % p.uBound.toNat + p.lBound.toNat) + (r₁ % p.uBound.toNat + p.lBound.toNat) = v := by
    intro v hlo hhi
    obtain ⟨rand, hrand, vs, ⟨x, hx, rfl⟩, hv⟩ := h.2.1 v hlo hhi 0 (by decide : 0 < 1)
    refine ⟨rand 0, rand 1, hrand 1, ?_⟩
    have hhigh := hroom (rand 0) (hrand 0)
    have hlow := hroom (rand 1) (hrand 1)
    have hdraw := fun r (hr : r % p.uBound.toNat + p.lBound.toNat < 2 ^ 32) =>
      RandomInflator.toNat_draw (p := p) (w := 64) (Nat.le_refl _) (hr.trans (by decide))
    simp only [BitVec.setWidth_eq] at hdraw
    obtain rfl : (BitVec.ofNat 64 (rand 0 % p.uBound.toNat) + p.lBound) <<< 32 |||
        (BitVec.ofNat 64 (rand 1 % p.uBound.toNat) + p.lBound) = x := by
      have hx' : (p.draw (rand 0)).bind (fun high => (p.draw (rand 1)).map fun low => high <<< 32 ||| low) = some x := hx
      rw [RandomInflator.draw_eq hu, RandomInflator.draw_eq hu] at hx'
      exact Option.some.inj hx'
    rw [List.getElem?_cons_zero, Option.some.injEq, BitVec.toNat_or, BitVec.toNat_shiftLeft, hdraw _ hhigh, hdraw _ hlow, Nat.shiftLeft_eq,
      Nat.mod_eq_of_lt (by omega), Nat.mul_comm, ← Nat.two_pow_add_eq_or_of_lt hlow] at hv
    exact hv
  -- the lower bound comes out only if it is zero, and then the number of the draws does not
  obtain ⟨r₀, r₁, -, hl⟩ := hvalue _ (Nat.le_refl _) hle
  have hmin := Nat.min_le_left p.uBound.toNat randSpan
  obtain ⟨r₂, r₃, hr₃, hk⟩ := hvalue (min p.uBound.toNat randSpan) (by omega) hmin
  have hlt : r₃ % p.uBound.toNat < min p.uBound.toNat randSpan := lt_min (Nat.mod_lt _ hpos) (Nat.lt_of_le_of_lt (Nat.mod_le _ _) hr₃)
  have hspan : min p.uBound.toNat randSpan ≤ 2 ^ 31 := Nat.min_le_right _ _
  have hl0 : p.lBound.toNat = 0 := by omega
  rw [hl0] at hk
  omega

/-- **The bounds, exactly**: which annotations are kept. -/
theorem inflator_right_iff (q : Request) : q.Right ↔ q.Clear := by
  cases hq : q.field with
  | array arrayLen =>
    have hf : q.field ≠ .uint64 := by simp [hq]
    simp only [Clear, hq]
    rcases Nat.eq_zero_or_pos q.count with h0 | hpos
    · refine iff_of_true ⟨fun rand _ => ⟨[], ?_, fun v hv => absurd hv List.not_mem_nil⟩, fun v _ _ k hk => ?_, fun hpos => ?_⟩ (.inl h0)
      · obtain ⟨field, a, hle, hfits⟩ := q
        obtain rfl : field = .array arrayLen := hq
        exact Field.inflates_nil h0
      · omega
      · omega
    · rcases Nat.lt_or_ge q.count (2 ^ 32) with hlt | hge
      · rw [right_iff_met hf hpos hlt]
        constructor
        · exact fun h => .inr ⟨hlt, h⟩
        · rintro (h0 | ⟨-, h⟩)
          · omega
          · exact h
      · refine iff_of_false (fun h => ?_) (by omega)
        obtain ⟨vs, hvs, -⟩ := h.1 (fun _ => 0) fun _ => (by decide : 0 < randSpan)
        obtain ⟨field, a, hle, hfits⟩ := q
        obtain rfl : field = .array arrayLen := hq
        obtain ⟨fuel, val, hval, -⟩ := hvs
        exact absurd (hval.symm.trans (RandomInflator.fillArray_of_le hge fuel 0 0 _)) (Option.some_ne_none _)
  | bool =>
    have hcount : q.count = 1 := by simp [count, Field.count, hq]
    rw [right_iff_met (by simp [hq]) (by omega) (by omega)]
    simp only [Clear, hq]
  | uint32 =>
    have hcount : q.count = 1 := by simp [count, Field.count, hq]
    rw [right_iff_met (by simp [hq]) (by omega) (by omega)]
    simp only [Clear, hq]
  | uint64 =>
    simp only [Clear, hq, iff_false]
    exact not_right_uint64 hq
  | uint8 =>
    have hcount : q.count = 1 := by simp [count, Field.count, hq]
    rw [right_iff_met (by simp [hq]) (by omega) (by omega)]
    simp only [Clear, hq]

/-- A range of zero only, from which `rand() % 0` cannot be drawn. -/
theorem not_inflator_right : ¬∀ q : Request, q.Right := by
  intro h
  exact upper_ne_zero (h ⟨.uint32, { lBound := some 0, uBound := some 0 }, by decide, by decide⟩) (by decide) rfl

end Request

end LibSystemCTLM.Traffic
