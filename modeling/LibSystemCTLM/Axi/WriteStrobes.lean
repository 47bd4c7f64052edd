import LibSystemCTLM.Axi.WriteChecker

/-!
# Strobes and byte lanes

The lanes of a beat are those of AXI (`Burst.Active`). `CheckWstrb` accepts the strobes of a beat when they are
on its lanes and, unless gaps are allowed, leave none (`checkWstrb_iff`), where its equations give AXI's lanes: for
fixed bursts that start at a multiple of the beat's size, and for wrapping bursts that do not wrap within the bus
(`Address.Plain`).
-/

namespace LibSystemCTLM.Axi.WrTx

open Foundation

variable {cfg : Config}

/-! ### What is asked -/

namespace Address

variable (a : Address cfg)

def burst : Burst := ⟨a.awburst, a.awaddr.toNat, a.numberBytes, a.numBeats⟩

/-- A strobe that is not on a lane of beat `n`. -/
def Outside (n : ℕ) (wstrb : ℕ → Bool) : Prop := ∃ l < cfg.dataBusBytes, wstrb l = true ∧ ¬a.burst.Active cfg.dataBusBytes n l

/-- A lane of beat `n` without a strobe. In the last beat the first lane has one, and only lanes behind the last strobe
have none. -/
def Gap (n : ℕ) (wstrb : ℕ → Bool) : Prop :=
  ∃ l < cfg.dataBusBytes, a.burst.Active cfg.dataBusBytes n l ∧ wstrb l = false ∧
    (n ≠ a.awlen ∨ (∀ l' < l, ¬a.burst.Active cfg.dataBusBytes n l') ∨
      ∃ l' < cfg.dataBusBytes, l < l' ∧ a.burst.Active cfg.dataBusBytes n l' ∧ wstrb l' = true)

def BadWstrb (n : ℕ) (wstrb : ℕ → Bool) : Prop := a.Outside n wstrb ∨ cfg.allowWstrbGaps = false ∧ a.Gap n wstrb

/-- Where the equations give the lanes of AXI. -/
def Plain : Prop :=
  match a.awburst with
  | .fixed => a.numberBytes ∣ a.awaddr.toNat ∨ a.awlen = 0
  | .incr => True
  | .wrap => cfg.dataBusBytes ∣ a.burst.total ∨ a.burst.total ∣ a.awaddr.toNat

end Address

/-! ### The strobes of a window -/

section Window

variable {wstrb : ℕ → Bool} {bus lower upper : ℕ}

theorem zerosFrom_iff {i : ℕ} : Transaction.zerosFrom bus wstrb i = true ↔ ∀ l, i ≤ l → l < bus → wstrb l = false := by
  unfold Transaction.zerosFrom
  simp only [List.all_eq_true, List.mem_range'_1, Bool.not_eq_true']
  refine forall_congr' fun l => ⟨fun h hle hlt => h ⟨hle, by omega⟩, fun h hl => h hl.1 (by omega)⟩

theorem skipOnes_spec (wstrb : ℕ → Bool) (i n : ℕ) : i ≤ Transaction.skipOnes wstrb i n ∧ Transaction.skipOnes wstrb i n ≤ i + n ∧
    (∀ l, i ≤ l → l < Transaction.skipOnes wstrb i n → wstrb l = true) ∧
    (Transaction.skipOnes wstrb i n < i + n → wstrb (Transaction.skipOnes wstrb i n) = false) := by
  induction n generalizing i with
  | zero => exact ⟨le_rfl, le_rfl, fun l hle hlt => absurd hlt (not_lt.2 hle), fun h => absurd h (lt_irrefl i)⟩
  | succ n ih =>
    unfold Transaction.skipOnes
    by_cases hi : wstrb i = true
    · obtain ⟨hge, hle, hones, hstop⟩ := ih (i + 1)
      rw [if_pos hi]
      refine ⟨by omega, by omega, fun l hl hlt => ?_, fun h => hstop (by omega)⟩
      rcases Nat.eq_or_lt_of_le hl with rfl | hl
      · exact hi
      · exact hones l hl hlt
    · rw [if_neg hi]
      exact ⟨le_rfl, Nat.le_add_right _ _, fun l hle hlt => absurd hlt (not_lt.2 hle), fun _ => Bool.eq_false_iff.2 hi⟩

/-- The run of strobes from the first lane on is all there is. -/
theorem lastBeat_iff (hle : lower ≤ upper) (hbus : upper < bus) :
    (wstrb lower && Transaction.zerosFrom bus wstrb (Transaction.skipOnes wstrb (lower + 1) (upper - lower))) = true ↔
      (∀ l, upper < l → l < bus → wstrb l = false) ∧
        ∀ l, lower ≤ l → l ≤ upper → wstrb l = false → lower < l ∧ ∀ l', l < l' → l' ≤ upper → wstrb l' = false := by
  obtain ⟨hge, hend, hones, hstop⟩ := skipOnes_spec wstrb (lower + 1) (upper - lower)
  generalize Transaction.skipOnes wstrb (lower + 1) (upper - lower) = m at hge hend hones hstop
  rw [Bool.and_eq_true, zerosFrom_iff]
  constructor
  · rintro ⟨hfirst, hzeros⟩
    have hrun : ∀ l, lower ≤ l → l < m → wstrb l = true := by
      intro l hl hlt
      rcases Nat.eq_or_lt_of_le hl with rfl | hl
      · exact hfirst
      · exact hones l hl hlt
    refine ⟨fun l hl hlt => hzeros l (by omega) hlt, fun l hl hu hzero => ?_⟩
    have hml : m ≤ l := by
      by_contra hlt
      rw [hrun l hl (not_le.1 hlt)] at hzero
      cases hzero
    exact ⟨by omega, fun l' hl' hu' => hzeros l' (by omega) (by omega)⟩
  · rintro ⟨hout, hgap⟩
    have hfirst : wstrb lower = true := by
      by_contra hzero
      exact lt_irrefl lower (hgap lower le_rfl hle (Bool.eq_false_iff.2 hzero)).1
    refine ⟨hfirst, fun l hl hlt => ?_⟩
    by_cases hu : upper < l
    · exact hout l hu hlt
    · have hzero := hstop (by omega)
      rcases Nat.eq_or_lt_of_le hl with rfl | hl
      · exact hzero
      · exact (hgap m (by omega) (by omega) hzero).2 l hl (by omega)

end Window

/-- What `CheckWstrb` accepts, by the lanes of its equations. -/
theorem checkWstrb_iff_lanes {t : Transaction cfg} {wstrb : ℕ → Bool} {allowGaps : Bool} (hle : t.lanes.1 ≤ t.lanes.2) (hbus : t.lanes.2 < cfg.dataBusBytes) :
    t.checkWstrb wstrb allowGaps = true ↔
      (∀ l < cfg.dataBusBytes, wstrb l = true → t.lanes.1 ≤ l ∧ l ≤ t.lanes.2) ∧
        (allowGaps = false → ∀ l, t.lanes.1 ≤ l → l ≤ t.lanes.2 → wstrb l = false →
          t.beat = t.address.numBeats ∧ t.lanes.1 < l ∧ ∀ l', l < l' → l' ≤ t.lanes.2 → wstrb l' = false) := by
  have hout : (∀ l < cfg.dataBusBytes, wstrb l = true → t.lanes.1 ≤ l ∧ l ≤ t.lanes.2) ↔
      (∀ l < t.lanes.1, wstrb l = false) ∧ ∀ l, t.lanes.2 < l → l < cfg.dataBusBytes → wstrb l = false := by
    constructor
    · intro h
      refine ⟨fun l hl => Bool.eq_false_iff.2 fun hset => ?_, fun l hl hlt => Bool.eq_false_iff.2 fun hset => ?_⟩
      · have := (h l (by omega) hset).1
        omega
      · have := (h l hlt hset).2
        omega
    · rintro ⟨hlow, hhigh⟩ l hlt hset
      refine ⟨not_lt.1 fun hl => ?_, not_lt.1 fun hl => ?_⟩
      · rw [hlow l hl] at hset
        cases hset
      · rw [hhigh l hl hlt] at hset
        cases hset
  have hlow : ((List.range t.lanes.1).all fun l => !wstrb l) = true ↔ ∀ l < t.lanes.1, wstrb l = false := by
    simp only [List.all_eq_true, List.mem_range, Bool.not_eq_true']
  unfold Transaction.checkWstrb
  rw [hout, Bool.and_eq_true, hlow, and_assoc]
  refine and_congr_right fun _ => ?_
  by_cases hgaps : allowGaps = true
  · rw [if_pos hgaps, zerosFrom_iff, hgaps]
    simp [Nat.succ_le_iff]
  rw [if_neg hgaps]
  by_cases hlast : t.beat = t.address.numBeats
  · rw [if_pos hlast, lastBeat_iff hle hbus]
    simp [hgaps, hlast]
  · rw [if_neg hlast, Bool.and_eq_true, zerosFrom_iff]
    rw [List.all_eq_true, and_comm]
    simp only [hgaps, hlast, false_and, forall_const, imp_false, Bool.not_eq_false, List.mem_range'_1, Nat.succ_le_iff]
    refine and_congr_right fun _ => ⟨fun h l hl hu => h l ⟨hl, by omega⟩, fun h l hl => h l hl.1 (by omega)⟩

/-! ### The lanes of the equations -/

section Lanes

variable {a : Address cfg} {n l : ℕ}

theorem numberBytes_dvd_bus (a : Address cfg) : a.numberBytes ∣ cfg.dataBusBytes := Nat.pow_dvd_pow 2 a.awsize_le

theorem numberBytes_pos (a : Address cfg) : 0 < a.numberBytes := Nat.two_pow_pos _

theorem bus_pos (cfg : Config) : 0 < cfg.dataBusBytes := Nat.two_pow_pos _

theorem align_eq (x n : ℕ) : align x n = alignDown x n := rfl

/-- A transfer that starts at a multiple of its size. -/
theorem active_iff_of_dvd (h : a.numberBytes ∣ a.burst.beatAddr n) :
    a.burst.Active cfg.dataBusBytes n l ↔
      a.burst.beatAddr n % cfg.dataBusBytes ≤ l ∧ l ≤ a.burst.beatAddr n % cfg.dataBusBytes + (a.numberBytes - 1) := by
  have hdown : alignDown (a.burst.beatAddr n) a.burst.size = a.burst.beatAddr n := alignDown_self h
  have hsum := alignDown_add_mod (a.burst.beatAddr n) cfg.dataBusBytes
  have hpos : 0 < a.burst.size := numberBytes_pos a
  have hsize : a.burst.size = a.numberBytes := rfl
  unfold Burst.Active Burst.laneAddr
  rw [hdown, ← hsize]
  omega

theorem lanes_of_pos (hn : 0 < n) : (Transaction.mk a (n + 1)).lanes =
    let addr := if a.awburst = .fixed then align a.awaddr.toNat a.numberBytes else (align a.awaddr.toNat a.numberBytes + n * a.numberBytes) % 2 ^ 64
    (addr % cfg.dataBusBytes, addr % cfg.dataBusBytes + (a.numberBytes - 1)) := by
  have hbeat : ¬n + 1 = 1 := by omega
  have hmod : ∀ x, x - align x cfg.dataBusBytes = x % cfg.dataBusBytes := fun x => by
    have := alignDown_add_mod x cfg.dataBusBytes
    rw [align_eq]
    omega
  unfold Transaction.lanes
  simp only [if_neg hbeat, Nat.add_sub_cancel, hmod]

/-- A beat that is not the first: its address is the one of the equations, but for whole bus words. -/
theorem beatAddr_of_plain (hplain : a.Plain) (hn : 0 < n) (hlt : n ≤ a.awlen) : a.numberBytes ∣ a.burst.beatAddr n ∧
    (if a.awburst = .fixed then align a.awaddr.toNat a.numberBytes else (align a.awaddr.toNat a.numberBytes + n * a.numberBytes) % 2 ^ 64) % cfg.dataBusBytes =
      a.burst.beatAddr n % cfg.dataBusBytes := by
  have hlinear : a.burst.linearAddr n = align a.awaddr.toNat a.numberBytes + n * a.numberBytes := Burst.linearAddr_of_pos hn
  have hdvd : a.numberBytes ∣ a.burst.linearAddr n := by
    rw [hlinear]
    exact Nat.dvd_add (dvd_alignDown _ _) (Nat.dvd_mul_left _ _)
  have hword : cfg.dataBusBytes ∣ 2 ^ 64 := Nat.pow_dvd_pow 2 (cfg.busBits_le.trans (by decide))
  have htotal : a.numberBytes ∣ a.burst.total := Nat.dvd_mul_right _ _
  unfold Address.Plain at hplain
  cases htype : a.awburst with
  | fixed =>
    rw [htype] at hplain
    have haddr : a.burst.beatAddr n = a.awaddr.toNat := by simp [Burst.beatAddr, Address.burst, htype]
    have hstart := hplain.resolve_right (by omega)
    rw [haddr, if_pos rfl, align_eq, alignDown_self hstart]
    exact ⟨hstart, rfl⟩
  | incr =>
    have haddr : a.burst.beatAddr n = a.burst.linearAddr n := by simp [Burst.beatAddr, Address.burst, htype]
    rw [haddr, if_neg nofun, Nat.mod_mod_of_dvd _ hword, ← hlinear]
    exact ⟨hdvd, rfl⟩
  | wrap =>
    rw [htype] at hplain
    have haddr := Burst.beatAddr_of_ne_fixed (b := a.burst) (by simp [Address.burst, htype]) n
    rw [if_neg nofun, Nat.mod_mod_of_dvd _ hword, ← hlinear, haddr]
    split
    · rename_i hwrap
      obtain hbus | hstart := hplain
      · have hge : a.burst.total ≤ a.burst.linearAddr n := (Nat.le_add_left _ _).trans hwrap.2
        refine ⟨Nat.dvd_sub hdvd htotal, ?_⟩
        obtain ⟨c, hc⟩ := hbus
        obtain ⟨r, hr⟩ := Nat.exists_eq_add_of_le hge
        rw [hr, Nat.add_sub_cancel_left, hc, Nat.mul_add_mod]
      · -- from the lowest address on, no beat wraps
        have hboundary : a.burst.wrapBoundary = a.awaddr.toNat := alignDown_self hstart
        have haligned : align a.awaddr.toNat a.numberBytes = a.awaddr.toNat := alignDown_self (htotal.trans hstart)
        have hover := hwrap.2
        rw [hboundary, hlinear, haligned] at hover
        have hbytes : a.burst.total ≤ n * a.numberBytes := Nat.le_of_add_le_add_left hover
        have hfit : n * a.numberBytes < a.burst.total := by
          rw [Nat.mul_comm]
          exact Nat.mul_lt_mul_of_pos_left (by unfold Address.burst Address.numBeats; exact Nat.lt_succ_of_le hlt) (numberBytes_pos a)
        exact absurd hbytes (not_le.2 hfit)
    · exact ⟨hdvd, rfl⟩

/-- **The lanes of the equations are those of AXI.** -/
theorem lanes_spec (hplain : a.Plain) (hlt : n ≤ a.awlen) :
    (∀ l, a.burst.Active cfg.dataBusBytes n l ↔ (Transaction.mk a (n + 1)).lanes.1 ≤ l ∧ l ≤ (Transaction.mk a (n + 1)).lanes.2) ∧
      (Transaction.mk a (n + 1)).lanes.1 ≤ (Transaction.mk a (n + 1)).lanes.2 ∧ (Transaction.mk a (n + 1)).lanes.2 < cfg.dataBusBytes := by
  have hpos := numberBytes_pos a
  rcases Nat.eq_zero_or_pos n with rfl | hn
  · have htotal : 0 < a.burst.total := Nat.mul_pos hpos (Nat.succ_pos _)
    have haddr : a.burst.beatAddr 0 = a.awaddr.toNat := Burst.beatAddr_zero htotal
    have hsize : a.burst.size = a.numberBytes := rfl
    have hbus := alignDown_le a.awaddr.toNat cfg.dataBusBytes
    have hdown := lt_alignDown_add a.awaddr.toNat hpos
    have hword := alignDown_add_le_alignDown (numberBytes_dvd_bus a) (bus_pos cfg) a.awaddr.toNat
    have hlanes : (Transaction.mk a (0 + 1)).lanes = (a.awaddr.toNat - alignDown a.awaddr.toNat cfg.dataBusBytes,
        alignDown a.awaddr.toNat a.numberBytes + (a.numberBytes - 1) - alignDown a.awaddr.toNat cfg.dataBusBytes) := rfl
    unfold Burst.Active Burst.laneAddr
    rw [hlanes, haddr, hsize]
    refine ⟨fun l => ?_, ?_, ?_⟩ <;> dsimp only <;> omega
  · obtain ⟨hdvd, haddr⟩ := beatAddr_of_plain hplain hn hlt
    rw [lanes_of_pos hn]
    dsimp only
    rw [haddr]
    have hend := alignDown_add_le_alignDown (numberBytes_dvd_bus a) (bus_pos cfg) (a.burst.beatAddr n)
    have hsum := alignDown_add_mod (a.burst.beatAddr n) cfg.dataBusBytes
    rw [alignDown_self hdvd] at hend
    exact ⟨fun l => active_iff_of_dvd hdvd, Nat.le_add_right _ _, by omega⟩

/-- **`CheckWstrb` finds bad strobes, and no others.** -/
theorem checkWstrb_iff (hplain : a.Plain) (hlt : n ≤ a.awlen) {wstrb : ℕ → Bool} :
    (Transaction.mk a (n + 1)).checkWstrb wstrb cfg.allowWstrbGaps = false ↔ a.BadWstrb n wstrb := by
  obtain ⟨hactive, hle, hbus⟩ := lanes_spec hplain hlt
  rw [← Bool.not_eq_true, checkWstrb_iff_lanes hle hbus, not_and_or]
  unfold Address.BadWstrb Address.Outside Address.Gap
  simp only [hactive]
  generalize (Transaction.mk a (n + 1)).lanes.1 = lower at *
  generalize (Transaction.mk a (n + 1)).lanes.2 = upper at *
  refine or_congr ?_ ?_
  · simp only [not_forall, exists_prop]
  rw [Classical.not_imp]
  refine and_congr_right fun _ => ?_
  constructor
  · intro h
    obtain ⟨l, hl⟩ := not_forall.1 h
    simp only [Classical.not_imp] at hl
    obtain ⟨hlow, hup, hzero, hgap⟩ := hl
    refine ⟨l, by omega, ⟨hlow, hup⟩, hzero, ?_⟩
    by_cases hlast : n = a.awlen
    · by_cases hfirst : lower < l
      · refine .inr (.inr ?_)
        by_contra hnone
        refine hgap ⟨congrArg (· + 1) hlast, hfirst, fun l' hl' hu => Bool.eq_false_iff.2 fun hset => ?_⟩
        exact hnone ⟨l', by omega, hl', ⟨by omega, hu⟩, hset⟩
      · exact .inr (.inl fun l' hl' hin => by omega)
    · exact .inl hlast
  · rintro ⟨l, _, ⟨hlow, hup⟩, hzero, hgap⟩ h
    obtain ⟨hlast, hfirst, hrest⟩ := h l hlow hup hzero
    rcases hgap with hnot | hnone | ⟨l', _, hl', hin, hset⟩
    · exact hnot (Nat.succ.inj hlast)
    · exact hnone lower hfirst ⟨le_rfl, hle⟩
    · rw [hrest l' hl' hin.2] at hset
      cases hset

end Lanes

end LibSystemCTLM.Axi.WrTx
