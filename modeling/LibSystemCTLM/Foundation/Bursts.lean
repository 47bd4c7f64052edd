import LibSystemCTLM.Foundation.Instances
import Mathlib.Data.List.Basic
import Mathlib.Data.Nat.Find
import Mathlib.Algebra.Order.Ring.Nat
import Mathlib.Tactic.Ring

/-!
# Bursts over a bus of byte lanes

A `Burst` is what an address phase announces: how the address moves, where it starts, the bytes of
a beat and the number of beats. Each beat carries one byte for each lane of the bus and a strobe for
each lane. `beatAddr` is the address of a beat, and a lane is `Active` in a beat when the byte it
stands for (`laneAddr`) belongs to the beat's transfer, which ends at the next multiple of `size`.
`writes` lists what the strobed active lanes write, beat by beat and lane by lane.

What a payload writes is listed the same way, so that the two are compared as lists: as the bytes
are arbitrary, equal lists have the same bytes at the same addresses (`filterMap_eq_iff`).
-/

namespace LibSystemCTLM.Foundation

variable {β : Type*}

/-! ### Multiples -/

/-- The multiple of `n` at or below `a`. -/
def alignDown (a n : ℕ) : ℕ := a / n * n

section Align

variable {a b n m k : ℕ}

theorem alignDown_add_mod (a n : ℕ) : alignDown a n + a % n = a := Nat.div_add_mod' a n

theorem alignDown_le (a n : ℕ) : alignDown a n ≤ a := Nat.div_mul_le_self a n

theorem lt_alignDown_add (a : ℕ) (hn : 0 < n) : a < alignDown a n + n := Nat.lt_div_mul_add hn

theorem dvd_alignDown (a n : ℕ) : n ∣ alignDown a n := Nat.dvd_mul_left n (a / n)

theorem alignDown_self (h : n ∣ a) : alignDown a n = a := Nat.div_mul_cancel h

/-- A multiple of `n` is at most `a` when it is at most the multiple below `a`. -/
theorem le_alignDown_iff (hb : n ∣ b) : b ≤ alignDown a n ↔ b ≤ a := by
  refine ⟨fun h => h.trans (alignDown_le a n), fun h => ?_⟩
  obtain ⟨c, rfl⟩ := hb
  rcases Nat.eq_zero_or_pos n with rfl | hn
  · simp
  · have hc : c ≤ a / n := (Nat.le_div_iff_mul_le hn).2 (by rwa [Nat.mul_comm])
    rw [alignDown, Nat.mul_comm]
    exact Nat.mul_le_mul_right n hc

/-- The block of `a` ends at or before the next multiple. -/
theorem alignDown_add_le (hc : n ∣ b) (hlt : a < b) : alignDown a n + n ≤ b := by
  obtain ⟨c, rfl⟩ := hc
  have hdiv : a / n < c := Nat.div_lt_of_lt_mul hlt
  calc alignDown a n + n = (a / n + 1) * n := (Nat.succ_mul _ _).symm
    _ ≤ c * n := Nat.mul_le_mul_right n hdiv
    _ = n * c := Nat.mul_comm c n

/-- A block of `n` bytes ends in the block of `m` it is in. -/
theorem alignDown_add_le_alignDown (h : n ∣ m) (hm : 0 < m) (a : ℕ) : alignDown a n + n ≤ alignDown a m + m :=
  alignDown_add_le (h.trans (Nat.dvd_add (dvd_alignDown a m) (Nat.dvd_refl m))) (lt_alignDown_add a hm)

/-- Blocks of `m` bytes are made of blocks of `n`. -/
theorem alignDown_le_alignDown (h : n ∣ m) (a : ℕ) : alignDown a m ≤ alignDown a n :=
  (le_alignDown_iff (h.trans (dvd_alignDown a m))).2 (alignDown_le a m)

/-- `a + k` counted in blocks from the block of `a`. -/
theorem mod_add_div_eq (a k : ℕ) (hn : 0 < n) : (a % n + k) / n = (a + k) / n - a / n := by
  have hsum : a + k = a % n + k + a / n * n := by
    have := Nat.div_add_mod' a n
    omega
  rw [hsum, Nat.add_mul_div_right _ _ hn, Nat.add_sub_cancel]

/-- Between two places there are no more ends of the larger blocks. -/
theorem div_sub_div_le (h : n ∣ m) (hm : 0 < m) (hab : a ≤ b) : b / m - a / m ≤ b / n - a / n := by
  obtain ⟨c, rfl⟩ := h
  have hc : 0 < c := Nat.pos_of_mul_pos_left hm
  obtain ⟨t, ht⟩ := Nat.exists_eq_add_of_le (Nat.div_le_div_right hab : a / n ≤ b / n)
  have hle : (a / n + t) / c ≤ a / n / c + t :=
    calc (a / n + t) / c ≤ (a / n + t * c) / c := Nat.div_le_div_right (by have := Nat.le_mul_of_pos_right t hc; omega)
      _ = a / n / c + t := Nat.add_mul_div_right _ _ hc
  rw [← Nat.div_div_eq_div_mul, ← Nat.div_div_eq_div_mul, ht]
  omega

/-- Places in one small block are in one large block. -/
theorem div_eq_of_dvd (h : n ∣ m) (hab : a / n = b / n) : a / m = b / m := by
  obtain ⟨c, rfl⟩ := h
  rw [← Nat.div_div_eq_div_mul, ← Nat.div_div_eq_div_mul, hab]

/-- Where as many large blocks as small ones are met up to `a + k`, this holds at each place before. -/
theorem div_sub_div_eq_of_le (h : n ∣ m) (hm : 0 < m) (hk : (a + k) / m - a / m = (a + k) / n - a / n) {j : ℕ} (hj : j ≤ k) :
    (a + j) / m - a / m = (a + j) / n - a / n := by
  have hle1 := div_sub_div_le h hm (Nat.le_add_right a j)
  have hle2 := div_sub_div_le h hm (Nat.add_le_add_left hj a)
  have hm1 : a / m ≤ (a + j) / m := Nat.div_le_div_right (Nat.le_add_right a j)
  have hm2 : (a + j) / m ≤ (a + k) / m := Nat.div_le_div_right (Nat.add_le_add_left hj a)
  have hn1 : a / n ≤ (a + j) / n := Nat.div_le_div_right (Nat.le_add_right a j)
  have hn2 : (a + j) / n ≤ (a + k) / n := Nat.div_le_div_right (Nat.add_le_add_left hj a)
  omega

/-- Places of the same block. -/
theorem add_div_eq_of_lt {i : ℕ} (hn : 0 < n) (hi : i < n - a % n) : (a + i) / n = a / n := by
  have hzero : (a % n + i) / n = 0 := Nat.div_eq_of_lt (by omega)
  have hle : a / n ≤ (a + i) / n := Nat.div_le_div_right (Nat.le_add_right a i)
  rw [mod_add_div_eq a i hn] at hzero
  omega

/-- How many blocks `k + 1` bytes from `a` on meet. -/
theorem ceil_eq (a k : ℕ) (hn : 0 < n) : (k + 1 + a % n + n - 1) / n = (a + k) / n - a / n + 1 := by
  rw [show k + 1 + a % n + n - 1 = a % n + k + n by omega, Nat.add_div_right _ hn, mod_add_div_eq a k hn]

/-- A quotient of a number that does not fit is too small. -/
theorem mod_div_eq_iff {y N M : ℕ} (hn : 0 < n) (hM : n ≤ M) (hle : y / n ≤ N) : y % M / n = N ↔ y < M ∧ y / n = N := by
  rcases Nat.lt_or_ge y M with hlt | hge
  · rw [Nat.mod_eq_of_lt hlt]
    exact (and_iff_right hlt).symm
  · refine iff_of_false (fun heq => ?_) fun h => absurd h.1 (not_lt.2 hge)
    have hmod : y % M ≤ y - n := by
      rw [Nat.mod_eq_sub_mod hge]
      exact (Nat.mod_le _ _).trans (Nat.sub_le_sub_left hM y)
    have hsub : (y - n) / n + 1 = y / n := by
      rw [← Nat.add_div_right _ hn, Nat.sub_add_cancel (hM.trans hge)]
    have := Nat.div_le_div_right (c := n) hmod
    omega

/-- Below the ceiling of `m / n`. -/
theorem lt_ceil_iff (hn : 0 < n) : k < (m + n - 1) / n ↔ k * n < m := by
  rw [Nat.lt_iff_add_one_le, Nat.le_div_iff_mul_le hn, Nat.succ_mul]
  omega

/-- The lowest bit of a word that is set. -/
theorem exists_and_neg {w : ℕ} {x : BitVec w} (h : x ≠ 0) : ∃ k, (x &&& -x).toNat = 2 ^ k ∧ 2 ^ k ∣ x.toNat := by
  classical
  have hbit : ∃ i, x.getLsbD i = true := by
    by_contra hnone
    refine h (BitVec.eq_of_getLsbD_eq fun i _ => ?_)
    rw [Bool.eq_false_iff.2 fun hi => hnone ⟨i, hi⟩, BitVec.ofNat_eq_ofNat, BitVec.getLsbD_zero]
  have hk := Nat.find_spec hbit
  have hlow : ∀ j < Nat.find hbit, x.getLsbD j = false := fun j hj => Bool.eq_false_iff.2 (Nat.find_min hbit hj)
  have hkw : Nat.find hbit < w := BitVec.lt_of_getLsbD hk
  refine ⟨Nat.find hbit, ?_, ?_⟩
  · have hpow : x &&& -x = BitVec.twoPow w (Nat.find hbit) := by
      refine BitVec.eq_of_getLsbD_eq fun i hi => ?_
      rw [BitVec.getLsbD_and, BitVec.getLsbD_neg, BitVec.getLsbD_twoPow]
      rcases Nat.lt_trichotomy i (Nat.find hbit) with hlt | rfl | hgt
      · rw [hlow i hlt, Bool.false_and, decide_eq_false (Nat.ne_of_gt hlt), Bool.and_false]
      · have hnone : decide (∃ j < Nat.find hbit, x.getLsbD j = true) = false :=
          decide_eq_false fun ⟨j, hj, hset⟩ => Bool.false_ne_true ((hlow j hj).symm.trans hset)
        rw [hk, hnone, decide_eq_true hi, decide_eq_true rfl]
        rfl
      · have hsome : decide (∃ j < i, x.getLsbD j = true) = true := decide_eq_true ⟨_, hgt, hk⟩
        rw [hsome, decide_eq_true hi, decide_eq_false (Nat.ne_of_lt hgt), Bool.and_false]
        cases x.getLsbD i <;> rfl
    rw [hpow, BitVec.toNat_twoPow_of_lt hkw]
  · refine Nat.dvd_of_mod_eq_zero (Nat.eq_of_testBit_eq fun j => ?_)
    rw [Nat.testBit_mod_two_pow, Nat.zero_testBit]
    by_cases hj : j < Nat.find hbit
    · have hz := hlow j hj
      rw [BitVec.getLsbD] at hz
      rw [hz, Bool.and_false]
    · rw [decide_eq_false hj, Bool.false_and]

end Align

/-! ### Lists of writes -/

/-- Only the lanes from `off` to `off + d` count. -/
theorem filterMap_window {γ : Type*} {g : ℕ → Option γ} {bus off d : ℕ} (h : off + d ≤ bus)
    (hout : ∀ l < bus, ¬(off ≤ l ∧ l < off + d) → g l = none) :
    (List.range bus).filterMap g = (List.range d).filterMap fun i => g (off + i) := by
  obtain ⟨r, rfl⟩ := Nat.exists_eq_add_of_le h
  have hleft : (List.range off).filterMap g = [] :=
    List.filterMap_eq_nil_iff.2 fun l hl => hout l (by have := List.mem_range.1 hl; omega) (by have := List.mem_range.1 hl; omega)
  have hright : ((List.range r).map (off + d + ·)).filterMap g = [] := by
    refine List.filterMap_eq_nil_iff.2 fun l hl => ?_
    obtain ⟨i, hi, rfl⟩ := List.mem_map.1 hl
    exact hout _ (by have := List.mem_range.1 hi; omega) (by omega)
  rw [List.range_add, List.range_add, List.filterMap_append, List.filterMap_append, hleft, hright,
    List.nil_append, List.append_nil, List.filterMap_map]
  rfl

/-- A shorter range as a part of a longer one. -/
theorem filterMap_range_le {γ : Type*} (f : ℕ → Option γ) {len m : ℕ} (h : len ≤ m) :
    (List.range len).filterMap f = (List.range m).filterMap fun k => if k < len then f k else none := by
  obtain ⟨r, rfl⟩ := Nat.exists_eq_add_of_le h
  have hright : ((List.range r).map (len + ·)).filterMap (fun k => if k < len then f k else none) = [] := by
    refine List.filterMap_eq_nil_iff.2 fun k hk => ?_
    obtain ⟨i, _, rfl⟩ := List.mem_map.1 hk
    exact if_neg (by omega)
  rw [List.range_add, List.filterMap_append, hright, List.append_nil]
  exact List.filterMap_congr fun k hk => (if_pos (List.mem_range.1 hk)).symm

/-- A range cut into pieces at `cut 1`, `cut 2`, ... -/
theorem filterMap_cuts {γ : Type*} (f : ℕ → Option γ) {cut : ℕ → ℕ} {len : ℕ} (h0 : cut 0 = 0) (hmono : Monotone cut) (N : ℕ) :
    (List.range (min len (cut N))).filterMap f =
      (List.range' 0 N).flatMap fun n => (List.range (min len (cut (n + 1)) - min len (cut n))).filterMap fun i => f (min len (cut n) + i) := by
  induction N with
  | zero => simp [h0]
  | succ N ih =>
    have hle : min len (cut N) ≤ min len (cut (N + 1)) := min_le_min_left len (hmono (Nat.le_succ N))
    rw [List.range'_1_concat, List.flatMap_append, ← ih, ← Nat.add_sub_cancel' hle, List.range_add, List.filterMap_append,
      List.filterMap_map]
    simp

theorem filterMap_sublist_map {ι γ : Type*} (p : ι → Prop) [DecidablePred p] (f : ι → γ) (I : List ι) :
    (I.filterMap fun i => if p i then some (f i) else none).Sublist (I.map f) := by
  induction I with
  | nil => exact .slnil
  | cons i I ih =>
    rw [List.map_cons, List.filterMap_cons]
    by_cases hp : p i
    · simpa [hp] using ih
    · simpa [hp] using ih.cons (f i)

/-- Lists of tagged bytes are the same for all bytes when they agree entry by entry. -/
theorem filterMap_eq_iff {ι α : Type*} [Nontrivial β] {I : List ι} {s e : ι → Prop} [DecidablePred s] [DecidablePred e] {a t : ι → α} :
    (∀ d : ι → β, (I.filterMap fun i => if s i then some (a i, d i) else none) = I.filterMap fun i => if e i then some (t i, d i) else none) ↔
      ∀ i ∈ I, (s i ↔ e i) ∧ (e i → a i = t i) := by
  classical
  refine ⟨fun h i hi => ?_, fun h d => List.filterMap_congr fun i hi => ?_⟩
  · obtain ⟨x, y, hxy⟩ := exists_pair_ne β
    -- only entry `i` carries `y`
    have hmem : ∀ {p : ι → Prop} [DecidablePred p] (u : ι → α) (c : α),
        (c, y) ∈ (I.filterMap fun j => if p j then some (u j, Function.update (fun _ => x) i y j) else none) ↔ p i ∧ u i = c := by
      intro p _ u c
      simp only [List.mem_filterMap, Option.ite_none_right_eq_some, Option.some.injEq, Prod.mk.injEq]
      refine ⟨fun ⟨j, _, hj, hu, hd⟩ => ?_, fun ⟨hp, hu⟩ => ⟨i, hi, hp, hu, Function.update_self ..⟩⟩
      obtain rfl : j = i := by_contra fun hne => hxy ((Function.update_of_ne hne y fun _ => x).symm.trans hd)
      exact ⟨hj, hu⟩
    have hiff : ∀ c, (s i ∧ a i = c) ↔ (e i ∧ t i = c) := fun c => by
      rw [← hmem a c, ← hmem t c, h]
    refine ⟨⟨fun hs => ((hiff (a i)).1 ⟨hs, rfl⟩).1, fun he => ((hiff (t i)).2 ⟨he, rfl⟩).1⟩, fun he => ?_⟩
    exact ((hiff (t i)).2 ⟨he, rfl⟩).2
  · obtain ⟨hse, hat⟩ := h i hi
    by_cases he : e i
    · rw [if_pos he, if_pos (hse.2 he), hat he]
    · rw [if_neg he, if_neg fun hs => he (hse.1 hs)]

/-! ### Bursts -/

/-- How the address of a burst moves from beat to beat. -/
inductive BurstType where
  | fixed | incr | wrap
  deriving DecidableEq, Repr

/-- An address phase: `len` beats of `size` bytes each, from `addr` on. -/
structure Burst where
  type : BurstType
  addr : ℕ
  size : ℕ
  len : ℕ
  deriving DecidableEq, Repr

/-- A beat: the byte on each lane, and which lanes are strobed. -/
structure Beat (β : Type*) where
  data : ℕ → β
  strb : ℕ → Bool

namespace Burst

variable (b : Burst) (bus : ℕ)

/-- The bytes of the whole burst. -/
def total : ℕ := b.size * b.len

/-- Where a wrapping burst starts over. -/
def wrapBoundary : ℕ := alignDown b.addr b.total

/-- The address of beat `n`, had the burst no end to wrap at. -/
def linearAddr (n : ℕ) : ℕ := if n = 0 then b.addr else alignDown b.addr b.size + n * b.size

/-- The address of beat `n`. -/
def beatAddr (n : ℕ) : ℕ :=
  match b.type with
  | .fixed => b.addr
  | .incr => b.linearAddr n
  | .wrap => if b.wrapBoundary + b.total ≤ b.linearAddr n then b.linearAddr n - b.total else b.linearAddr n

/-- The address lane `l` stands for in beat `n`. -/
def laneAddr (n l : ℕ) : ℕ := alignDown (b.beatAddr n) bus + l

/-- Lane `l` belongs to the transfer of beat `n`. -/
def Active (n l : ℕ) : Prop :=
  b.beatAddr n ≤ b.laneAddr bus n l ∧ b.laneAddr bus n l < alignDown (b.beatAddr n) b.size + b.size

instance (n l : ℕ) : Decidable (b.Active bus n l) := inferInstanceAs (Decidable (_ ∧ _))

/-- What a beat writes. -/
def beatWrites (n : ℕ) (beat : Beat β) : List (ℕ × β) :=
  (List.range bus).filterMap fun l =>
    if beat.strb l = true ∧ b.Active bus n l then some (b.laneAddr bus n l, beat.data l) else none

/-- What the beats from beat `n` on write. -/
def writesFrom : ℕ → List (Beat β) → List (ℕ × β)
  | _, [] => []
  | n, beat :: beats => b.beatWrites bus n beat ++ writesFrom (n + 1) beats

/-- What the burst writes. -/
def writes (beats : List (Beat β)) : List (ℕ × β) := b.writesFrom bus 0 beats

variable {b bus}

/-- The first beat is at the address of the burst. -/
theorem beatAddr_zero (h : 0 < b.total) : b.beatAddr 0 = b.addr := by
  have hlt : b.addr < b.wrapBoundary + b.total := lt_alignDown_add b.addr h
  have hlin : b.linearAddr 0 = b.addr := if_pos rfl
  unfold beatAddr
  split
  · rfl
  · exact hlin
  · rw [hlin, if_neg (not_le.2 hlt)]

/-- An address in the transfer of a beat and in its bus word has an active lane. -/
theorem active_of_div_eq {n x : ℕ} (hs : 0 < b.size) (hle : b.beatAddr n ≤ x) (hsize : b.beatAddr n / b.size = x / b.size)
    (hbus : b.beatAddr n / bus = x / bus) : b.laneAddr bus n (x % bus) = x ∧ b.Active bus n (x % bus) := by
  have hlane : b.laneAddr bus n (x % bus) = x := by
    rw [laneAddr, alignDown, hbus]
    exact alignDown_add_mod x bus
  refine ⟨hlane, hlane.symm ▸ hle, ?_⟩
  rw [hlane, alignDown, hsize]
  exact lt_alignDown_add x hs

/-- The beat of the byte `k` places on starts in the byte's transfer, and in its `e` bytes, as long
as no end of `e` bytes is met but with a transfer's end. -/
theorem linearAddr_spec {e k n : ℕ} (hs : 0 < b.size) (hn : (b.addr + k) / b.size - b.addr / b.size = n)
    (hagree : ∀ j ≤ k, (b.addr + j) / b.size - b.addr / b.size = (b.addr + j) / e - b.addr / e) :
    b.linearAddr n ≤ b.addr + k ∧ b.linearAddr n / b.size = (b.addr + k) / b.size ∧ b.linearAddr n / e = (b.addr + k) / e := by
  have hmono : b.addr / b.size ≤ (b.addr + k) / b.size := Nat.div_le_div_right (Nat.le_add_right _ _)
  have hmonoe : b.addr / e ≤ (b.addr + k) / e := Nat.div_le_div_right (Nat.le_add_right _ _)
  have hk := hagree k le_rfl
  rcases Nat.eq_zero_or_pos n with rfl | hpos
  · refine ⟨Nat.le_add_right _ _, ?_, ?_⟩ <;> simp only [linearAddr, if_pos] <;> omega
  · have hlin : b.linearAddr n = alignDown (b.addr + k) b.size := by
      rw [linearAddr, if_neg hpos.ne', alignDown, alignDown, ← Nat.add_mul]
      congr 1
      omega
    have hdiv : alignDown (b.addr + k) b.size / b.size = (b.addr + k) / b.size := Nat.mul_div_cancel _ hs
    have hge : b.addr ≤ alignDown (b.addr + k) b.size := by
      by_contra hlt
      have := Nat.div_le_div_right (c := b.size) (not_le.1 hlt).le
      omega
    obtain ⟨j, hj⟩ := Nat.exists_eq_add_of_le hge
    have hle := alignDown_le (b.addr + k) b.size
    have hjk := hagree j (by omega)
    have hmonoj : b.addr / e ≤ (b.addr + j) / e := Nat.div_le_div_right (Nat.le_add_right _ _)
    rw [hlin]
    refine ⟨hle, hdiv, ?_⟩
    rw [← hj, hdiv] at hjk
    rw [← hj] at hmonoj
    omega

/-- A lane of a transfer that is no wider than the bus. -/
theorem Active.lt {n l : ℕ} (h : b.Active bus n l) (hd : b.size ∣ bus) (hbus : 0 < bus) : l < bus := by
  have hend := alignDown_add_le_alignDown hd hbus (b.beatAddr n)
  have hlt := h.2
  rw [laneAddr] at hlt
  omega

theorem linearAddr_of_pos {n : ℕ} (hn : 0 < n) : b.linearAddr n = alignDown b.addr b.size + n * b.size := if_neg hn.ne'

theorem linearAddr_le (n : ℕ) : b.linearAddr n ≤ b.addr + n * b.size := by
  have hle := alignDown_le b.addr b.size
  unfold linearAddr
  split <;> omega

/-- A beat is at its linear address, or the burst's bytes below it. -/
theorem beatAddr_of_ne_fixed (hfix : b.type ≠ .fixed) (n : ℕ) :
    b.beatAddr n =
      if b.type = .wrap ∧ b.wrapBoundary + b.total ≤ b.linearAddr n then b.linearAddr n - b.total else b.linearAddr n := by
  unfold beatAddr
  split
  · exact absurd ‹_› hfix
  · rename_i h
    simp [h]
  · rename_i h
    simp [h]

/-- Beat `n` is in the `n`th bus word after the first beat's. -/
theorem linearAddr_word {n : ℕ} (hn : 0 < n) (hd : b.size ∣ bus) (hs : 0 < b.size) (hbus : 0 < bus) :
    alignDown (b.linearAddr n) bus = alignDown b.addr bus + n * bus ↔ b.size = bus ∨ n = 1 ∧ bus ≤ b.addr % bus + b.size := by
  have hend := alignDown_add_le_alignDown hd hbus b.addr
  have hmod := alignDown_add_mod b.addr bus
  have hdown := alignDown_le b.addr b.size
  rw [linearAddr_of_pos hn]
  refine ⟨fun heq => ?_, fun h => ?_⟩
  · refine or_iff_not_imp_left.2 fun hne => ?_
    have hlt : b.size < bus := lt_of_le_of_ne (Nat.le_of_dvd hbus hd) hne
    have hle := alignDown_le (alignDown b.addr b.size + n * b.size) bus
    obtain ⟨m, rfl⟩ := Nat.exists_eq_add_one_of_ne_zero hn.ne'
    rw [heq, Nat.succ_mul, Nat.succ_mul] at hle
    have hm : m = 0 := by
      by_contra hpos
      have := Nat.mul_lt_mul_of_pos_left hlt (Nat.pos_of_ne_zero hpos)
      omega
    subst hm
    exact ⟨rfl, by omega⟩
  · rcases h with hsize | ⟨rfl, hlast⟩
    · rw [hsize]
      exact alignDown_self (Nat.dvd_add (dvd_alignDown _ _) (Nat.dvd_mul_left _ _))
    · have hnext : alignDown b.addr b.size + b.size = alignDown b.addr bus + bus := by
        refine le_antisymm hend (not_lt.1 fun hlt => ?_)
        have hself : alignDown (alignDown b.addr b.size + b.size) b.size = alignDown b.addr b.size + b.size :=
          alignDown_self (Nat.dvd_add (dvd_alignDown _ _) (Nat.dvd_refl _))
        have hadd := alignDown_add_le (hd.trans (Nat.dvd_add (dvd_alignDown b.addr bus) (Nat.dvd_refl bus))) hlt
        have hover := lt_alignDown_add b.addr hs
        omega
      rw [Nat.one_mul, Nat.one_mul, hnext]
      exact alignDown_self (Nat.dvd_add (dvd_alignDown _ _) (Nat.dvd_refl _))

variable (b bus)

theorem writesFrom_map (f : ℕ → Beat β) (n k : ℕ) :
    b.writesFrom bus n ((List.range' n k).map f) = (List.range' n k).flatMap fun m => b.beatWrites bus m (f m) := by
  induction k generalizing n with
  | zero => rfl
  | succ k ih => rw [List.range'_succ, List.map_cons, writesFrom, ih, List.flatMap_cons]

/-- A beat at its linear address with all lanes strobed. -/
theorem beatWrites_linear {n : ℕ} {data : ℕ → β} (hb : b.beatAddr n = b.linearAddr n) (hd : b.size ∣ bus) (hs : 0 < b.size) (hbus : 0 < bus) :
    b.beatWrites bus n ⟨data, fun _ => true⟩ =
      (List.range (b.size - b.linearAddr n % b.size)).map fun i => (b.linearAddr n + i, data (b.linearAddr n % bus + i)) := by
  have hend := alignDown_add_le_alignDown hd hbus (b.linearAddr n)
  have hmod := alignDown_add_mod (b.linearAddr n) bus
  have hmods := alignDown_add_mod (b.linearAddr n) b.size
  have hlt := Nat.mod_lt (b.linearAddr n) hs
  have hactive : ∀ l, b.Active bus n l ↔ b.linearAddr n % bus ≤ l ∧ l < b.linearAddr n % bus + (b.size - b.linearAddr n % b.size) := fun l => by
    rw [Active, laneAddr, hb]
    omega
  rw [beatWrites, filterMap_window (by omega : b.linearAddr n % bus + (b.size - b.linearAddr n % b.size) ≤ bus), ← List.filterMap_eq_map]
  · refine List.filterMap_congr fun i hi => ?_
    rw [List.mem_range] at hi
    rw [if_pos ⟨rfl, (hactive _).2 (by omega)⟩, laneAddr, hb, ← Nat.add_assoc, hmod]
    rfl
  · exact fun l _ hout => if_neg fun h => hout ((hactive l).1 h.2)

/-- What a burst writes, byte by byte: `cut n` bytes are before beat `n`. -/
theorem writes_eq_filterMap (hd : b.size ∣ bus) (hs : 0 < b.size) (hbus : 0 < bus) (f : ℕ → Beat β)
    (g : ℕ → Option (ℕ × β)) {cut : ℕ → ℕ} (h0 : cut 0 = 0) (hcut : ∀ n, cut (n + 1) = cut n + (b.size - b.beatAddr n % b.size))
    (hg : ∀ n < b.len, ∀ i < b.size - b.beatAddr n % b.size, g (cut n + i) =
      if (f n).strb (b.beatAddr n % bus + i) = true then some (b.beatAddr n + i, (f n).data (b.beatAddr n % bus + i)) else none) :
    b.writes bus ((List.range' 0 b.len).map f) = (List.range (cut b.len)).filterMap g := by
  have hmono : Monotone cut := monotone_nat_of_le_succ fun n => (hcut n).symm ▸ Nat.le_add_right _ _
  have hcuts := @filterMap_cuts _ g cut (cut b.len) h0 hmono b.len
  rw [min_self] at hcuts
  rw [writes, writesFrom_map, hcuts]
  refine List.flatMap_congr fun n hn => ?_
  have hlt : n < b.len := by simpa using hn
  rw [min_eq_right (hmono hlt.le), min_eq_right (hmono (Nat.succ_le_of_lt hlt)), hcut, Nat.add_sub_cancel_left]
  have hend := alignDown_add_le_alignDown hd hbus (b.beatAddr n)
  have hmod := alignDown_add_mod (b.beatAddr n) bus
  have hmods := alignDown_add_mod (b.beatAddr n) b.size
  have hsize := Nat.mod_lt (b.beatAddr n) hs
  have hactive : ∀ l, b.Active bus n l ↔ b.beatAddr n % bus ≤ l ∧ l < b.beatAddr n % bus + (b.size - b.beatAddr n % b.size) := fun l => by
    rw [Active, laneAddr]
    omega
  rw [beatWrites, filterMap_window (by omega : b.beatAddr n % bus + (b.size - b.beatAddr n % b.size) ≤ bus)]
  · refine List.filterMap_congr fun i hi => ?_
    have hin := List.mem_range.1 hi
    rw [hg n hlt i hin, laneAddr, ← Nat.add_assoc, hmod]
    exact if_congr (and_iff_left ((hactive _).2 (by omega))) rfl rfl
  · exact fun l _ hout => if_neg fun h => hout ((hactive l).1 h.2)

/-- What is written by a beat is written by the burst. -/
theorem mem_writesFrom {beats : List (Beat β)} {n m : ℕ} {beat : Beat β} {x : ℕ × β} (hbeat : beats[m]? = some beat)
    (hx : x ∈ b.beatWrites bus (n + m) beat) : x ∈ b.writesFrom bus n beats := by
  induction beats generalizing n m with
  | nil => simp at hbeat
  | cons b' beats ih =>
    cases m with
    | zero =>
      obtain rfl : b' = beat := by simpa using hbeat
      exact List.mem_append_left _ hx
    | succ m =>
      refine List.mem_append_right _ (ih (by simpa using hbeat) ?_)
      rwa [Nat.add_assoc, Nat.add_comm 1 m]

end Burst

end LibSystemCTLM.Foundation
