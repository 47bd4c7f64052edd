import LibSystemCTLM.Xgmii.Bridges
import Mathlib.Data.BitVec
import Mathlib.Algebra.Group.Nat.Even

/-!
# The lanes of a sequence of flits

`push_data_buf` packs the bytes of a buffer and the bits of a control mask into flits. Read lane by lane these
flits are the bytes of the buffer, each with its bit of the mask (`pushDataBuf_lanes`), if the buffer fills
them: that is what the receiver sees when it takes a flit apart again.
-/

namespace LibSystemCTLM.Xgmii

open Tlm

namespace Flit

variable (f : Flit)

theorem getLsbD_lane (l i : ℕ) : (f.lane l).1.getLsbD i = (decide (i < 8) && f.xxd.getLsbD (l * 8 + i)) := by
  rw [lane, BitVec.getLsbD_setWidth, BitVec.getLsbD_ushiftRight]

theorem getLsbD_put {l j : ℕ} (hj : j < 64) (b : Byte) (k : Bool) :
    (f.put l b k).xxd.getLsbD j = (f.xxd.getLsbD j || (decide (l * 8 ≤ j) && b.getLsbD (j - l * 8))) := by
  by_cases h : l * 8 ≤ j
  · rw [put, BitVec.getLsbD_or, BitVec.getLsbD_shiftLeft, BitVec.getLsbD_setWidth]
    simp [hj, h, Nat.not_lt.2 h, show j - l * 8 < 64 by omega]
  · rw [put, BitVec.getLsbD_or, BitVec.getLsbD_shiftLeft]
    simp [h, Nat.not_le.1 h]

/-- What is put on a lane that was blank is found there. -/
theorem lane_put_self {l : ℕ} (hl : l < 8) (hf : f.lane l = (0, true)) (b : Byte) (k : Bool) :
    (f.put l b k).lane l = (b, k) := by
  refine Prod.ext ?_ ?_
  · apply BitVec.eq_of_getLsbD_eq
    intro i hi
    have hclear : (f.lane l).1.getLsbD i = false := by simp [hf]
    rw [getLsbD_lane, decide_eq_true hi, Bool.true_and] at hclear
    rw [getLsbD_lane, getLsbD_put f (by omega), hclear]
    simp [hi]
  · cases k <;> simp [lane, put, hl]

theorem lane_put_of_ne {l j : ℕ} (hj : j < 8) (h : j ≠ l) (b : Byte) (k : Bool) :
    (f.put l b k).lane j = f.lane j := by
  refine Prod.ext ?_ ?_
  · apply BitVec.eq_of_getLsbD_eq
    intro i hi
    rw [getLsbD_lane, getLsbD_lane, getLsbD_put f (by omega)]
    by_cases hl : l * 8 ≤ j * 8 + i
    · simp [BitVec.getLsbD_of_ge b (j * 8 + i - l * 8) (by omega)]
    · simp [hl]
  · by_cases h' : j < l
    · simp [lane, put, hj, h']
    · cases k <;> simp [lane, put, hj, h', show j - l ≠ 0 by omega]

/-- The flit that every lane is put on is blank. -/
theorem lane_blank {l : ℕ} (hl : l < 8) : lane ⟨0, 0xff⟩ l = (0, true) := by
  have h : ∀ l < 8, lane ⟨0, 0xff⟩ l = (0, true) := by decide
  exact h l hl

/-- No lane of a flit whose control bits are clear is a control code. -/
theorem lane_of_xxc_eq_zero (h : f.xxc = 0) (l : ℕ) : (f.lane l).2 = false := by simp [lane, h]

end Flit

/-- The bytes of a buffer, each with its bit of the mask. -/
def marks : List Byte → BitVec 64 → List (Byte × Bool)
  | [], _ => []
  | b :: bs, ctrl => (b, ctrl.getLsbD 0) :: marks bs (ctrl >>> 1)

theorem marks_append (xs ys : List Byte) (ctrl : BitVec 64) :
    marks (xs ++ ys) ctrl = marks xs ctrl ++ marks ys (ctrl >>> xs.length) := by
  induction xs generalizing ctrl with
  | nil => simp [marks]
  | cons b xs ih => rw [List.cons_append, marks, marks, ih, List.cons_append, ← BitVec.shiftRight_add, List.length_cons, Nat.add_comm 1]

/-- Where the mask is constant, so are the marks. -/
theorem marks_eq_map {k : Bool} {bs : List Byte} {ctrl : BitVec 64} (h : ∀ i < bs.length, ctrl.getLsbD i = k) :
    marks bs ctrl = bs.map fun b => (b, k) := by
  induction bs generalizing ctrl with
  | nil => rfl
  | cons b bs ih =>
    have h0 : ctrl.getLsbD 0 = k := h 0 (by simp)
    have hrest : ∀ i < bs.length, (ctrl >>> 1).getLsbD i = k := by
      intro i hi
      rw [BitVec.getLsbD_ushiftRight]
      exact h (1 + i) (by rw [List.length_cons]; omega)
    rw [marks, h0, ih hrest, List.map_cons]

/-- The loop over the lanes puts the bytes on the lanes that are free. -/
theorem fillLanes_eq {n : ℕ} (hn : n ≤ 8) (rest bs : List Byte) {l : ℕ} (hl : l + bs.length = n) (ctrl : BitVec 64) {f : Flit}
    (hf : ∀ j, l ≤ j → j < 8 → f.lane j = (0, true)) :
    ∃ g, fillLanes n (bs ++ rest) l ctrl f = (g, rest, ctrl >>> bs.length) ∧
      (List.range n).map g.lane = (List.range l).map f.lane ++ marks bs ctrl := by
  induction bs generalizing l ctrl f with
  | nil =>
    obtain rfl : l = n := hl
    refine ⟨f, ?_, by simp [marks]⟩
    cases rest with
    | nil => simp [fillLanes]
    | cons b rest => simp [fillLanes]
  | cons b bs ih =>
    rw [List.length_cons] at hl
    have hl8 : l < 8 := by omega
    have hblank : ∀ j, l + 1 ≤ j → j < 8 → (f.put l b (ctrl.getLsbD 0)).lane j = (0, true) := by
      intro j hj hj8
      rw [Flit.lane_put_of_ne f hj8 (by omega)]
      exact hf j (by omega) hj8
    obtain ⟨g, hg, hlanes⟩ := ih (by omega) (ctrl >>> 1) hblank
    refine ⟨g, ?_, ?_⟩
    · rw [List.cons_append, fillLanes, if_pos (by omega), hg, ← BitVec.shiftRight_add, List.length_cons, Nat.add_comm 1]
    · have hkeep : (List.range l).map (f.put l b (ctrl.getLsbD 0)).lane = (List.range l).map f.lane := by
        refine List.map_congr_left fun j hj => ?_
        have := List.mem_range.1 hj
        exact Flit.lane_put_of_ne f (by omega) (by omega) _ _
      rw [hlanes, List.range_succ, List.map_append, hkeep, marks, List.map_singleton,
        Flit.lane_put_self f hl8 (hf l le_rfl hl8), List.append_assoc, List.singleton_append]

theorem lanes_le (m : Mode) : lanes m ≤ 8 := by cases m <;> decide

theorem lanes_pos (m : Mode) : 0 < lanes m := by cases m <;> decide

/-- A buffer that begins with the bytes of a flit. -/
theorem pushDataBuf_flit {m : Mode} {bs : List Byte} (hbs : bs.length = lanes m) (rest : List Byte) (ctrl : BitVec 64) :
    ∃ g : Flit, pushDataBuf m (bs ++ rest) ctrl = g :: pushDataBuf m rest (ctrl >>> lanes m) ∧ g.laneList m = marks bs ctrl := by
  cases bs with
  | nil =>
    have := lanes_pos m
    rw [List.length_nil] at hbs
    omega
  | cons b bs =>
    have hblank : ∀ j, 1 ≤ j → j < 8 → (Flit.put ⟨0, 0xff⟩ 0 b (ctrl.getLsbD 0)).lane j = (0, true) := by
      intro j hj hj8
      rw [Flit.lane_put_of_ne _ hj8 (by omega), Flit.lane_blank hj8]
    rw [List.length_cons] at hbs
    obtain ⟨g, hg, hlanes⟩ := fillLanes_eq (lanes_le m) rest bs (show 1 + bs.length = lanes m by omega) (ctrl >>> 1) hblank
    refine ⟨g, ?_, ?_⟩
    · rw [List.cons_append, pushDataBuf, hg, ← BitVec.shiftRight_add, ← hbs, Nat.add_comm 1]
    · rw [Flit.laneList, hlanes, marks, List.range_one, List.map_singleton,
        Flit.lane_put_self _ (by decide) (Flit.lane_blank (by decide)), List.singleton_append]

/-- The flits of a buffer that fills them, read lane by lane, are its bytes with their marks. -/
theorem pushDataBuf_lanes {m : Mode} {bs : List Byte} (hbs : lanes m ∣ bs.length) (ctrl : BitVec 64) :
    (pushDataBuf m bs ctrl).flatMap (Flit.laneList m) = marks bs ctrl := by
  obtain ⟨k, hk⟩ := hbs
  induction k generalizing bs ctrl with
  | zero =>
    obtain rfl : bs = [] := List.length_eq_zero_iff.1 hk
    simp [pushDataBuf, marks]
  | succ k ih =>
    rw [Nat.mul_succ] at hk
    have htake : (bs.take (lanes m)).length = lanes m := by rw [List.length_take]; omega
    obtain ⟨g, hg, hlanes⟩ := pushDataBuf_flit htake (bs.drop (lanes m)) ctrl
    have hdrop : (bs.drop (lanes m)).length = lanes m * k := by rw [List.length_drop]; omega
    rw [List.take_append_drop] at hg
    rw [hg, List.flatMap_cons, hlanes, ih _ hdrop]
    conv_rhs => rw [← List.take_append_drop (lanes m) bs, marks_append, htake]

theorem lanes_dvd (m : Mode) {n : ℕ} (h : 8 ∣ n) : lanes m ∣ n := by
  cases m with
  | mode10G => exact h
  | mode1G => exact one_dvd n

end LibSystemCTLM.Xgmii
