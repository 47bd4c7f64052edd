import LibSystemCTLM.Tlm.Payload
import Mathlib.Data.BitVec
import Mathlib.Tactic.IntervalCases
import Mathlib.Tactic.Ring

/-!
# Write strobes of `tlm2axi_hw_bridge`

A write gets strobes from the bridge, unless its size is one of an `AxSIZE` that fits the bus: then the hardware makes
them. The strobes are words of four lanes. The word at the start of the data has a mask of at most four lanes, those
behind it have a mask of what is left, of which the length in bits is one of 32 bits; with byte enables each lane is
looked at. So strobes are right but for sizes next to the limits of an `unsigned int` (`strobesRight_iff`). Without
strobes nothing looks at the address, and only an aligned write has all its bytes in the one beat
(`wstrb_right_iff`).
-/

namespace LibSystemCTLM.HwBridge

open Tlm

/-- The width of the data bus is told by three bits, and the bridge may be one for AXI4-Lite. -/
structure Config where
  log : ℕ
  axilite : Bool
  log_le : log ≤ 7

/-- `data_bytewidth`. -/
def Config.dataBytewidth (cfg : Config) : ℕ := 2 ^ cfg.log

/-- What `desc_access` is called with. No byte enables are the empty list. -/
structure Access where
  addr : Addr
  isWrite : Bool
  size : ℕ
  be : List Byte
  size_lt : size < 2 ^ 32

/-- Byte `k` is enabled. -/
def Access.enabled (a : Access) (k : ℕ) : Bool := a.be.isEmpty || decide (a.be[k % a.be.length]? = some byteEnabled)

/-- `bitops_mask64`. -/
def bitopsMask64 (start len : ℕ) : BitVec 64 :=
  if 64 ≤ start ∨ len = 0 then 0
  else (if len < 64 then BitVec.allOnes 64 >>> (64 - len) else BitVec.allOnes 64) <<< start

/-- `map_size_to_axsize`. -/
def mapSizeToAxsize (size : ℕ) : Option ℕ :=
  if size = 128 then some 7 else if size = 64 then some 6 else if size = 32 then some 5 else if size = 16 then some 4
  else if size = 8 then some 3 else if size = 4 then some 2 else if size = 2 then some 1 else if size = 1 then some 0 else none

/-- `map_size_to_nearest_axsize`; `none` is the assertion. -/
def mapSizeToNearestAxsize (size : ℕ) : Option ℕ :=
  if size = 1 then some 0 else if size = 2 then some 1 else if size ≤ 4 then some 2 else if size ≤ 8 then some 3
  else if size ≤ 16 then some 4 else if size ≤ 32 then some 5 else if size ≤ 64 then some 6 else if size ≤ 128 then some 7 else none

variable (cfg : Config) (a : Access)

/-- `offset`. -/
def offset : ℕ := a.addr.toNat % cfg.dataBytewidth

/-- `nr_beats`. -/
def nrBeats : ℕ := (offset cfg a + a.size + cfg.dataBytewidth - 1) % 2 ^ 32 / cfg.dataBytewidth

/-! ### `desc_setup_wstrb` -/

/-- A lane at `pos` is within bounds and its byte is enabled. -/
def beLane (pos : ℕ) : Bool :=
  decide (offset cfg a ≤ pos) && decide (pos < (offset cfg a + a.size) % 2 ^ 32) &&
    decide (a.be[(pos - offset cfg a) % a.be.length]? = some byteEnabled)

/-- The word at lane `bit`. With byte enables it is made again: what is out of bounds ends the loop, and so is all
behind it. -/
def word (bit : ℕ) : BitVec 32 :=
  if a.be.isEmpty = true then
    if bit ≤ offset cfg a then (bitopsMask64 ((offset cfg a - bit) * 8) (min a.size 4 * 8)).setWidth 32
    else if bit - offset cfg a < a.size then (bitopsMask64 0 ((a.size - (bit - offset cfg a)) * 8 % 2 ^ 32)).setWidth 32
    else 0
  else (List.range 4).foldl (fun v j => if beLane cfg a (bit + j) = true then v ||| 0xff#32 <<< (j * 8) else v) 0

/-- The number of words: at least one for a beat. -/
def nrWords : ℕ := nrBeats cfg a * ((cfg.dataBytewidth + 3) / 4)

/-- `desc_setup_wstrb`. -/
def descSetupWstrb : List (BitVec 32) := (List.range (nrWords cfg a)).map fun w => word cfg a (4 * w)

/-! ### `desc_access` -/

/-- What is written to the descriptor. -/
structure Descriptor where
  axaddr : Addr
  size : ℕ
  axsize : ℕ
  wstrb : Option (List (BitVec 32))

/-- `axsize`, if the hardware can make the strobes. -/
def exactAxsize : Option ℕ := if a.size ≤ cfg.dataBytewidth ∧ cfg.axilite = false then mapSizeToAxsize a.size else none

/-- `axsize` as it is programmed; the offset is taken for zero if there is one already. -/
def axsize : Option ℕ :=
  if cfg.axilite = true then mapSizeToAxsize cfg.dataBytewidth
  else
    (exactAxsize cfg a).orElse fun _ =>
      if cfg.dataBytewidth ≤ (offset cfg a + a.size) % 2 ^ 32 then mapSizeToNearestAxsize cfg.dataBytewidth
      else mapSizeToNearestAxsize ((offset cfg a + a.size) % 2 ^ 32)

/-- `desc_access` up to the hand over; `none` is an assertion. -/
def descAccess : Option Descriptor :=
  (axsize cfg a).map fun axsize =>
    { axaddr := a.addr
      size := nrBeats cfg a * cfg.dataBytewidth
      axsize := axsize
      wstrb := if ((exactAxsize cfg a).isNone || !a.be.isEmpty) && a.isWrite then some (descSetupWstrb cfg a) else none }

/-! ### What is asked of it -/

/-- The strobe of a lane, over all beats. -/
def strobe (words : List (BitVec 32)) (lane : ℕ) : BitVec 8 := ((words[lane / 4]?).getD 0).extractLsb' (8 * (lane % 4)) 8

/-- The lane is one of an enabled byte. -/
def Wanted (lane : ℕ) : Prop := offset cfg a ≤ lane ∧ lane - offset cfg a < a.size ∧ a.enabled (lane - offset cfg a) = true

instance (lane : ℕ) : Decidable (Wanted cfg a lane) := inferInstanceAs (Decidable (_ ∧ _ ∧ _))

/-- Exactly the lanes of the enabled bytes are on. -/
def StrobesRight (words : List (BitVec 32)) : Prop := ∀ lane, strobe words lane = if Wanted cfg a lane then 0xff else 0

/-- The beats of the descriptor, of which the first one is not aligned, have exactly the bytes of the write. -/
def CoversRight (d : Descriptor) : Prop :=
  ∀ x, (d.axaddr.toNat ≤ x ∧ x < d.axaddr.toNat / 2 ^ d.axsize * 2 ^ d.axsize + d.size / cfg.dataBytewidth * 2 ^ d.axsize) ↔
    a.addr.toNat ≤ x ∧ x < a.addr.toNat + a.size

/-- What is handed over has exactly the enabled bytes. -/
def HandedOverRight : Prop :=
  ∃ d, descAccess cfg a = some d ∧
    match d.wstrb with
    | some words => StrobesRight cfg a words
    | none => CoversRight cfg a d

/-- A write modifies exactly the enabled bytes. -/
def WriteRight : Prop := a.isWrite = true → HandedOverRight cfg a

/-- The size is the one of an `AxSIZE` that fits the bus, and there are no byte enables. -/
def SelfStrobed : Prop := cfg.axilite = false ∧ a.be = [] ∧ a.size ≤ cfg.dataBytewidth ∧ ∃ s, a.size = 2 ^ s

/-- The number of lanes is one of 32 bits, and without byte enables so is the length of each mask; or nothing is to be
written. -/
def Fits : Prop :=
  (offset cfg a + a.size + cfg.dataBytewidth - 1 < 2 ^ 32 ∧ (a.be = [] → a.size < 2 ^ 29 + 4 - offset cfg a % 4)) ∨
    ∀ k < a.size, a.enabled k = false

variable {cfg a} {bit j k lane s w : ℕ}

theorem dataBytewidth_pos (cfg : Config) : 0 < cfg.dataBytewidth := Nat.two_pow_pos _

theorem dataBytewidth_le (cfg : Config) : cfg.dataBytewidth ≤ 128 := Nat.pow_le_pow_right (by decide) cfg.log_le

theorem offset_lt (cfg : Config) (a : Access) : offset cfg a < cfg.dataBytewidth := Nat.mod_lt _ (dataBytewidth_pos cfg)

/-! ### Masks -/

theorem getLsbD_bitopsMask64 (start len i : ℕ) : (bitopsMask64 start len).getLsbD i = decide (i < 64 ∧ start ≤ i ∧ i < start + len) := by
  unfold bitopsMask64
  split
  · rw [show (0 : BitVec 64).getLsbD i = false from BitVec.getLsbD_zero, eq_comm, decide_eq_false_iff_not]
    omega
  · rw [BitVec.getLsbD_shiftLeft]
    split
    · rw [BitVec.getLsbD_ushiftRight, BitVec.getLsbD_allOnes]
      grind
    · rw [BitVec.getLsbD_allOnes]
      grind

theorem extract_mask (m n : ℕ) (hj : j < 4) :
    ((bitopsMask64 (m * 8) (n * 8)).setWidth 32).extractLsb' (8 * j) 8 = if m ≤ j ∧ j < m + n then 0xff else 0 := by
  refine BitVec.eq_of_getLsbD_eq fun i hi => ?_
  rw [BitVec.getLsbD_extractLsb', BitVec.getLsbD_setWidth, getLsbD_bitopsMask64]
  split
  · rw [show (0xff : BitVec 8) = BitVec.allOnes 8 from rfl, BitVec.getLsbD_allOnes]
    simp only [hi, decide_true, Bool.true_and, Bool.and_eq_true, decide_eq_true_iff]
    omega
  · rw [show (0 : BitVec 8).getLsbD i = false from BitVec.getLsbD_zero]
    simp only [hi, decide_true, Bool.true_and, Bool.and_eq_false_iff, decide_eq_false_iff_not]
    omega

/-- A byte of a word that is put together byte by byte. -/
theorem extract_foldl (p : ℕ → Bool) (hj : j < 4) :
    ((List.range 4).foldl (fun (v : BitVec 32) i => if p i = true then v ||| 0xff#32 <<< (i * 8) else v) 0).extractLsb' (8 * j) 8 =
      if p j = true then 0xff else 0 := by
  simp only [List.range, List.range.loop, List.foldl_cons, List.foldl_nil]
  cases h0 : p 0 <;> cases h1 : p 1 <;> cases h2 : p 2 <;> cases h3 : p 3 <;> interval_cases j <;>
    simp only [h0, h1, h2, h3, Bool.false_eq_true, if_true, if_false] <;> rfl

theorem strobe_of_lt (f : ℕ → BitVec 32) {n : ℕ} (h : lane < 4 * n) :
    strobe ((List.range n).map fun w => f (4 * w)) lane = (f (4 * (lane / 4))).extractLsb' (8 * (lane % 4)) 8 := by
  have : lane / 4 < n := by omega
  simp [strobe, this]

theorem strobe_of_le (f : ℕ → BitVec 32) {n : ℕ} (h : 4 * n ≤ lane) : strobe ((List.range n).map fun w => f (4 * w)) lane = 0 := by
  have : n ≤ lane / 4 := by omega
  rw [strobe, List.getElem?_eq_none (by simpa using this)]
  exact BitVec.eq_of_getLsbD_eq fun i hi => by simp

/-- The word at the start of the data without byte enables. -/
theorem extract_word_first (hbe : a.be = []) (h : 4 * (lane / 4) ≤ offset cfg a) :
    (word cfg a (4 * (lane / 4))).extractLsb' (8 * (lane % 4)) 8 =
      if offset cfg a ≤ lane ∧ lane - offset cfg a < a.size then 0xff else 0 := by
  rw [word, hbe, List.isEmpty_nil, if_pos rfl, if_pos h, extract_mask _ _ (Nat.mod_lt _ (by decide))]
  refine if_congr ?_ rfl rfl
  omega

/-- A word behind it: what is left is a number of bytes that is one of 29 bits. -/
theorem extract_word_rest (hbe : a.be = []) (h : offset cfg a < 4 * (lane / 4)) :
    (word cfg a (4 * (lane / 4))).extractLsb' (8 * (lane % 4)) 8 =
      if lane % 4 < (a.size - (4 * (lane / 4) - offset cfg a)) % 2 ^ 29 then 0xff else 0 := by
  rw [word, hbe, List.isEmpty_nil, if_pos rfl, if_neg (Nat.not_le_of_lt h)]
  by_cases h' : 4 * (lane / 4) - offset cfg a < a.size
  · have hlen : (a.size - (4 * (lane / 4) - offset cfg a)) * 8 % 2 ^ 32 =
        (a.size - (4 * (lane / 4) - offset cfg a)) % 2 ^ 29 * 8 := by omega
    rw [if_pos h', hlen, ← Nat.zero_mul 8, extract_mask _ _ (Nat.mod_lt _ (by decide))]
    refine if_congr ?_ rfl rfl
    omega
  · rw [if_neg h', if_neg (by omega)]
    exact BitVec.eq_of_getLsbD_eq fun i hi => by simp

theorem extract_word_be (hbe : a.be ≠ []) :
    (word cfg a (4 * (lane / 4))).extractLsb' (8 * (lane % 4)) 8 = if beLane cfg a lane = true then 0xff else 0 := by
  rw [word, if_neg (by simpa using hbe), extract_foldl _ (Nat.mod_lt _ (by decide)), Nat.div_add_mod]

/-! ### Strobes -/

theorem enabled_of_nil (hbe : a.be = []) (k : ℕ) : a.enabled k = true := by simp [Access.enabled, hbe]

/-- The words have a place for each lane, if their number is one of 32 bits. -/
theorem lanes_le (h : offset cfg a + a.size + cfg.dataBytewidth - 1 < 2 ^ 32) : offset cfg a + a.size ≤ 4 * nrWords cfg a := by
  have hB := dataBytewidth_pos cfg
  have hdiv := Nat.div_add_mod (offset cfg a + a.size + cfg.dataBytewidth - 1) cfg.dataBytewidth
  have hmod := Nat.mod_lt (offset cfg a + a.size + cfg.dataBytewidth - 1) hB
  have hwords : cfg.dataBytewidth ≤ 4 * ((cfg.dataBytewidth + 3) / 4) := by omega
  rw [nrWords, nrBeats, Nat.mod_eq_of_lt h]
  calc offset cfg a + a.size
    _ ≤ (offset cfg a + a.size + cfg.dataBytewidth - 1) / cfg.dataBytewidth * cfg.dataBytewidth := by
      rw [Nat.mul_comm]; omega
    _ ≤ _ := Nat.mul_le_mul_left _ hwords
    _ = _ := by ring

theorem ite_strobe_iff {p q : Prop} [Decidable p] [Decidable q] :
    (if p then (0xff : BitVec 8) else 0) = (if q then 0xff else 0) ↔ (p ↔ q) := by
  split <;> split <;> simp [*]

theorem not_wanted_of_le (h : offset cfg a + a.size ≤ lane) : ¬ Wanted cfg a lane := by
  rintro ⟨h₁, h₂, -⟩
  omega

theorem wanted_of_nil (hbe : a.be = []) : Wanted cfg a lane ↔ offset cfg a ≤ lane ∧ lane - offset cfg a < a.size := by
  simp [Wanted, enabled_of_nil hbe]

/-- Without byte enables it is the masks that have to be of one word's length. -/
theorem strobesRight_plain_iff (hbe : a.be = []) (hT : offset cfg a + a.size + cfg.dataBytewidth - 1 < 2 ^ 32) :
    StrobesRight cfg a (descSetupWstrb cfg a) ↔ a.size < 2 ^ 29 + 4 - offset cfg a % 4 := by
  have hroom := lanes_le hT
  constructor
  · intro h
    by_contra hsize
    -- the last lane of the word behind which the length is zero
    let lane := 4 * ((offset cfg a + a.size - 2 ^ 29) / 4) + 3
    have hlane : lane / 4 = (offset cfg a + a.size - 2 ^ 29) / 4 := by omega
    have hright := h lane
    rw [descSetupWstrb, strobe_of_lt _ (by omega), extract_word_rest hbe (by omega), ite_strobe_iff, wanted_of_nil hbe] at hright
    have hwanted := hright.2 (by omega)
    omega
  · intro hsize lane
    by_cases hlane : lane < 4 * nrWords cfg a
    · rw [descSetupWstrb, strobe_of_lt _ hlane]
      by_cases hfirst : 4 * (lane / 4) ≤ offset cfg a
      · rw [extract_word_first hbe hfirst]
        exact ite_strobe_iff.2 (wanted_of_nil hbe).symm
      · have hleft : a.size - (4 * (lane / 4) - offset cfg a) < 2 ^ 29 := by omega
        rw [extract_word_rest hbe (by omega), Nat.mod_eq_of_lt hleft, ite_strobe_iff, wanted_of_nil hbe]
        omega
    · rw [descSetupWstrb, strobe_of_le _ (by omega), if_neg (not_wanted_of_le (by omega))]

/-- With byte enables each lane is looked at. -/
theorem strobesRight_be (hbe : a.be ≠ []) (hT : offset cfg a + a.size + cfg.dataBytewidth - 1 < 2 ^ 32) :
    StrobesRight cfg a (descSetupWstrb cfg a) := by
  have hroom := lanes_le hT
  have hB := dataBytewidth_pos cfg
  intro lane
  by_cases hlane : lane < 4 * nrWords cfg a
  · rw [descSetupWstrb, strobe_of_lt _ hlane, extract_word_be hbe, ite_strobe_iff, beLane, Wanted, Access.enabled,
      Nat.mod_eq_of_lt (by omega : offset cfg a + a.size < 2 ^ 32)]
    have : a.be.isEmpty = false := by simpa using hbe
    simp only [this, Bool.false_or, Bool.and_eq_true, decide_eq_true_iff]
    exact ⟨fun ⟨⟨h₁, h₂⟩, h₃⟩ => ⟨h₁, by omega, h₃⟩, fun ⟨h₁, h₂, h₃⟩ => ⟨⟨h₁, by omega⟩, h₃⟩⟩
  · rw [descSetupWstrb, strobe_of_le _ (by omega), if_neg (not_wanted_of_le (by omega))]

/-- Where the number of lanes is not one of 32 bits there is at most one beat. -/
theorem lanes_of_wrap (hT : 2 ^ 32 ≤ offset cfg a + a.size + cfg.dataBytewidth - 1) : 4 * nrWords cfg a ≤ cfg.dataBytewidth + 3 := by
  have hB := dataBytewidth_pos cfg
  have ho := offset_lt cfg a
  have hbeats : nrBeats cfg a ≤ 1 := by
    refine Nat.lt_succ_iff.1 ((Nat.div_lt_iff_lt_mul hB).2 ?_)
    have := a.size_lt
    omega
  calc 4 * nrWords cfg a
    _ ≤ 4 * (1 * ((cfg.dataBytewidth + 3) / 4)) := Nat.mul_le_mul_left _ (Nat.mul_le_mul_right _ hbeats)
    _ ≤ _ := by omega

/-- And with byte enables no lane of it is within the bounds. -/
theorem strobe_of_wrap (hbe : a.be ≠ []) (hT : 2 ^ 32 ≤ offset cfg a + a.size + cfg.dataBytewidth - 1) :
    strobe (descSetupWstrb cfg a) lane = 0 := by
  have hB := dataBytewidth_le cfg
  have hsize := a.size_lt
  by_cases hlane : lane < 4 * nrWords cfg a
  · rw [descSetupWstrb, strobe_of_lt _ hlane, extract_word_be hbe, if_neg]
    have := lanes_of_wrap hT
    simp only [beLane, Bool.and_eq_true, decide_eq_true_iff]
    rintro ⟨⟨h₁, h₂⟩, -⟩
    have hlt : offset cfg a + a.size < 2 ^ 32 := by omega
    have hno : nrBeats cfg a = 0 := Nat.div_eq_of_lt (by omega)
    rw [nrWords, hno] at hlane
    omega
  · rw [descSetupWstrb, strobe_of_le _ (by omega)]

/-- The strobes are right if and only if the numbers fit, or nothing is to be written. -/
theorem strobesRight_iff : StrobesRight cfg a (descSetupWstrb cfg a) ↔ Fits cfg a := by
  by_cases hT : offset cfg a + a.size + cfg.dataBytewidth - 1 < 2 ^ 32
  · by_cases hbe : a.be = []
    · rw [strobesRight_plain_iff hbe hT, Fits]
      refine ⟨fun h => .inl ⟨hT, fun _ => h⟩, ?_⟩
      rintro (⟨-, h⟩ | h)
      · exact h hbe
      · have hzero : a.size = 0 := Nat.eq_zero_of_not_pos fun hpos => by simpa [enabled_of_nil hbe] using h 0 hpos
        omega
    · exact iff_of_true (strobesRight_be hbe hT) (.inl ⟨hT, fun h => absurd h hbe⟩)
  · have hwrap := Nat.le_of_not_lt hT
    have hB := dataBytewidth_le cfg
    have ho := offset_lt cfg a
    constructor
    · intro h
      refine .inr fun k hk => ?_
      by_contra henabled
      have hwanted : Wanted cfg a (offset cfg a + k) :=
        ⟨Nat.le_add_right _ _, by omega, by simpa using henabled⟩
      by_cases hbe : a.be = []
      · -- the last byte has no lane
        have hlast := h (offset cfg a + a.size - 1)
        have := lanes_of_wrap hwrap
        rw [descSetupWstrb, strobe_of_le _ (by omega), if_pos ((wanted_of_nil hbe).2 (by omega))] at hlast
        exact absurd hlast (by decide)
      · have hlane := h (offset cfg a + k)
        rw [strobe_of_wrap hbe hwrap, if_pos hwanted] at hlane
        exact absurd hlane (by decide)
    · rintro (⟨h, -⟩ | h)
      · exact absurd h hT
      · intro lane
        have hnone : ¬ Wanted cfg a lane := by
          rintro ⟨-, hk, henabled⟩
          exact absurd henabled (by simp [h _ hk])
        rw [if_neg hnone]
        by_cases hbe : a.be = []
        · have := h 0 (by omega)
          simp [enabled_of_nil hbe] at this
        · exact strobe_of_wrap hbe hwrap

/-! ### Sizes -/

theorem mapSizeToAxsize_eq_some (n : ℕ) : mapSizeToAxsize n = some s ↔ n = 2 ^ s ∧ s ≤ 7 := by
  constructor
  · intro h
    simp only [mapSizeToAxsize] at h
    split_ifs at h <;> simp_all only [Option.some.injEq] <;> subst h <;> decide
  · rintro ⟨rfl, hs⟩
    interval_cases s <;> rfl

theorem exists_nearest (n : ℕ) (h : n ≤ 128) : ∃ s, mapSizeToNearestAxsize n = some s := by
  unfold mapSizeToNearestAxsize
  split_ifs <;> exact ⟨_, rfl⟩

theorem exactAxsize_eq_some : exactAxsize cfg a = some s ↔ cfg.axilite = false ∧ a.size ≤ cfg.dataBytewidth ∧ a.size = 2 ^ s := by
  unfold exactAxsize
  split
  · next h =>
    refine (mapSizeToAxsize_eq_some _).trans ⟨fun h' => ⟨h.2, h.1, h'.1⟩, fun h' => ⟨h'.2.2, ?_⟩⟩
    refine (Nat.pow_le_pow_iff_right (by decide : 1 < 2)).1 ?_
    calc 2 ^ s
      _ = a.size := h'.2.2.symm
      _ ≤ 2 ^ 7 := h.1.trans (dataBytewidth_le cfg)
  · next h => exact iff_of_false (by simp) fun h' => h ⟨h'.2.1, h'.1⟩

/-- An `AxSIZE` is always found. -/
theorem exists_axsize (cfg : Config) (a : Access) : ∃ s, axsize cfg a = some s := by
  have hB := dataBytewidth_le cfg
  unfold axsize
  split
  · exact ⟨cfg.log, (mapSizeToAxsize_eq_some _).2 ⟨rfl, cfg.log_le⟩⟩
  · cases hexact : exactAxsize cfg a with
    | some s => exact ⟨s, rfl⟩
    | none =>
      rw [Option.orElse_none]
      split
      · exact exists_nearest _ hB
      · exact exists_nearest _ (by omega)

theorem selfStrobed_iff : SelfStrobed cfg a ↔ a.be = [] ∧ ∃ s, exactAxsize cfg a = some s := by
  simp only [SelfStrobed, exactAxsize_eq_some]
  constructor
  · rintro ⟨h₁, h₂, h₃, s, hs⟩
    exact ⟨h₂, s, h₁, h₃, hs⟩
  · rintro ⟨h₂, s, h₁, h₃, hs⟩
    exact ⟨h₁, h₂, h₃, s, hs⟩

/-! ### A beat of an `AxSIZE` -/

/-- Aligned data of a size that fits the bus is in one beat. -/
theorem nrBeats_of_dvd (hs : a.size = 2 ^ s) (hle : a.size ≤ cfg.dataBytewidth) (hdvd : a.size ∣ a.addr.toNat) : nrBeats cfg a = 1 := by
  have hB := dataBytewidth_le cfg
  have ho := offset_lt cfg a
  have hpos : 0 < a.size := hs ▸ Nat.two_pow_pos s
  have hbus : a.size ∣ cfg.dataBytewidth := by
    rw [hs, Config.dataBytewidth]
    exact Nat.pow_dvd_pow 2 ((Nat.pow_le_pow_iff_right (by decide)).1 (hs ▸ hle))
  have hoff : a.size ∣ offset cfg a := (Nat.dvd_mod_iff hbus).2 hdvd
  have hroom : offset cfg a + a.size ≤ cfg.dataBytewidth := by
    obtain ⟨m, hm⟩ := hoff
    obtain ⟨n, hn⟩ := hbus
    have hmn : m < n := Nat.lt_of_mul_lt_mul_left (a := a.size) (by omega)
    calc offset cfg a + a.size
      _ = a.size * (m + 1) := by rw [hm]; ring
      _ ≤ a.size * n := Nat.mul_le_mul_left _ hmn
      _ = cfg.dataBytewidth := hn.symm
  rw [nrBeats, Nat.mod_eq_of_lt (by omega)]
  exact Nat.div_eq_of_lt_le (by omega) (by omega)

/-- Beats of the size of the data have exactly its bytes if and only if they begin at a multiple of it. -/
theorem coversRight_iff {d : Descriptor} (hs : a.size = 2 ^ s) (hle : a.size ≤ cfg.dataBytewidth) (haddr : d.axaddr = a.addr)
    (hsize : d.size = nrBeats cfg a * cfg.dataBytewidth) (haxsize : d.axsize = s) :
    CoversRight cfg a d ↔ a.size ∣ a.addr.toNat := by
  have hpos : 0 < a.size := hs ▸ Nat.two_pow_pos s
  rw [CoversRight, haddr, hsize, haxsize, Nat.mul_div_cancel _ (dataBytewidth_pos cfg), ← hs]
  constructor
  · intro h
    have hlast := (h (a.addr.toNat + a.size - 1)).2 (by omega)
    have hend := h (a.addr.toNat + a.size)
    have hends : a.addr.toNat + a.size = a.addr.toNat / a.size * a.size + nrBeats cfg a * a.size := by omega
    have : a.size ∣ a.addr.toNat + a.size := hends ▸ Dvd.intro_left _ (Nat.add_mul _ _ _)
    exact (Nat.dvd_add_left (dvd_refl _)).1 this
  · intro hdvd x
    rw [nrBeats_of_dvd hs hle hdvd, Nat.div_mul_cancel hdvd, Nat.one_mul]

/-- The descriptor of a write: without strobes if the hardware can make them, and with the strobes of the bridge otherwise. -/
theorem descAccess_write (hwrite : a.isWrite = true) :
    ∃ d, descAccess cfg a = some d ∧ d.axaddr = a.addr ∧ d.size = nrBeats cfg a * cfg.dataBytewidth ∧ axsize cfg a = some d.axsize ∧
      ((SelfStrobed cfg a ∧ d.wstrb = none) ∨ (¬ SelfStrobed cfg a ∧ d.wstrb = some (descSetupWstrb cfg a))) := by
  obtain ⟨s, hs⟩ := exists_axsize cfg a
  refine ⟨_, by rw [descAccess, hs, Option.map_some], rfl, rfl, hs, ?_⟩
  rw [selfStrobed_iff, hwrite, Bool.and_true]
  by_cases hbe : a.be = []
  · cases hexact : exactAxsize cfg a <;> simp [hbe]
  · have : a.be.isEmpty = false := by simpa using hbe
    simp [hbe, this]

theorem handedOver_right_iff (hwrite : a.isWrite = true) :
    HandedOverRight cfg a ↔ (SelfStrobed cfg a → a.size ∣ a.addr.toNat) ∧ (¬ SelfStrobed cfg a → Fits cfg a) := by
  unfold HandedOverRight
  obtain ⟨d, hd, haddr, hsize, haxsize, hstrobes⟩ := @descAccess_write cfg a hwrite
  have hunique (p : Descriptor → Prop) : (∃ d', descAccess cfg a = some d' ∧ p d') ↔ p d := by simp [hd]
  rw [hunique]
  obtain ⟨hself, hnone⟩ | ⟨hself, hsome⟩ := hstrobes
  · obtain ⟨-, s, hs⟩ := selfStrobed_iff.1 hself
    have hexact := exactAxsize_eq_some.1 hs
    have hd : d.axsize = s := by
      rw [axsize, hexact.1, if_neg (by decide), hs] at haxsize
      exact (Option.some.inj haxsize).symm
    rw [hnone, coversRight_iff hexact.2.2 hexact.2.1 haddr hsize hd]
    exact ⟨fun h => ⟨fun _ => h, absurd hself⟩, fun h => h.1 hself⟩
  · rw [hsome]
    refine strobesRight_iff.trans ?_
    exact ⟨fun h => ⟨fun h' => absurd h' hself, fun _ => h⟩, fun h => h.2 hself⟩

theorem log_unalignedWord : 3 ≤ 7 := by decide

theorem size_unalignedWord : 4 < 2 ^ 32 := by decide

/-- Four bytes at the second one of a bus of eight bytes: the hardware makes strobes of a word that is aligned. -/
def unalignedWord : Config × Access :=
  ({ log := 3, axilite := false, log_le := log_unalignedWord }, { addr := 1, isWrite := true, size := 4, be := [], size_lt := size_unalignedWord })

end LibSystemCTLM.HwBridge
