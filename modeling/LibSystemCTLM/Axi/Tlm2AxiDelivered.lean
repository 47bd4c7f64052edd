import LibSystemCTLM.Axi.Tlm2AxiBeats

/-!
# When `tlm2axi_bridge` delivers a payload

`BeatsOk` is the exact condition under which the write data phase sends the announced beats and these
write the payload (`dataPhaseOk_iff`): the beats are counted and cut alike, a fixed burst repeats
its byte enables with its addresses, and a wrapping burst does not get to where it wraps.
-/

namespace LibSystemCTLM.Tlm2Axi

open Foundation Tlm

variable {cfg : Config} {gp : GenericPayload} {g : Genattr}

/-! ### The condition -/

section Condition

variable (cfg gp g)

/-- The bytes of an announced beat: the attribute, without it an even streaming width below the bus, or the bus. -/
def beatWidth : ℕ :=
  if g.burstWidth ≠ 0 then g.burstWidth
  else if gp.streamingWidth < gp.dataLength ∧ gp.streamingWidth < cfg.dataBusBytes then
    (if 1 < gp.streamingWidth then gp.streamingWidth / 2 * 2 else gp.streamingWidth)
  else cfg.dataBusBytes

/-- The bytes of a beat that fit on the bus. -/
def busWidth : ℕ := min (beatWidth cfg gp g) cfg.dataBusBytes

/-- A payload that streams: `counted` bytes a beat are announced and `taken` are sent, in as many
beats, and the byte enables and the addresses come back after `taken` bytes. -/
structure StreamOk (counted taken : ℕ) : Prop where
  fits : gp.dataLength + counted - 1 < 2 ^ 32
  count : (gp.dataLength + counted - 1) / counted = (gp.dataLength + taken - 1) / taken
  enables : ∀ k < gp.dataLength, gp.enabled (k % taken) = gp.enabled k
  places : ∀ k < gp.dataLength, gp.enabled k = true → k % taken = k % gp.streamingWidth
  barrier : cfg.proto.isAce = true → g.barrier = true → gp.dataLength ≤ taken

/-- A payload that does not stream, `width` bytes a beat, of which `lanes` fit on the bus: it meets as
many blocks of the one size as of the other, and no enabled byte lies where a wrapping burst wraps. -/
structure RunOk (width lanes : ℕ) : Prop where
  fits : gp.dataLength + gp.address.toNat % width + width - 1 < 2 ^ 32
  count : (gp.dataLength + gp.address.toNat % width + width - 1) / width = (gp.dataLength + gp.address.toNat % lanes + lanes - 1) / lanes
  wrap : gp.streamingWidth = gp.dataLength → g.wrap = true → ∀ k < gp.dataLength, gp.enabled k = true →
    gp.address.toNat % (width * ((gp.dataLength + gp.address.toNat % width + width - 1) / width)) + k <
      width * ((gp.dataLength + gp.address.toNat % width + width - 1) / width)
  barrier : cfg.proto.isAce = true → g.barrier = true → gp.dataLength + gp.address.toNat % lanes ≤ lanes

/-- The payloads whose write data phase delivers them. -/
def BeatsOk : Prop :=
  gp.command = .write ∧
    if gp.streamingWidth < gp.dataLength then
      StreamOk cfg gp g (beatWidth cfg gp g - gp.address.toNat % beatWidth cfg gp g)
        (min gp.streamingWidth (busWidth cfg gp g - gp.address.toNat % busWidth cfg gp g))
    else RunOk cfg gp g (beatWidth cfg gp g) (busWidth cfg gp g)

end Condition

/-! ### Accepted payloads -/

/-- What `SetupBurstType` settles on. -/
theorem setupBurstType_spec {burstType : BurstType} {g' : Genattr} (hsw : 0 < gp.streamingWidth)
    (h : setupBurstType cfg gp g = some (burstType, g')) :
    (burstType = .fixed ↔ gp.streamingWidth < gp.dataLength) ∧ (burstType = .fixed → gp.streamingWidth ≤ cfg.dataBusBytes) ∧
      (burstType = .wrap ↔ gp.streamingWidth = gp.dataLength ∧ g.wrap = true) ∧
      g' = { g with burstWidth := g'.burstWidth } ∧ getBurstWidth cfg g' = beatWidth cfg gp g := by
  -- without a new burst width
  have hkept (hw : g.burstWidth ≠ 0 ∨ ¬(gp.streamingWidth < gp.dataLength ∧ gp.streamingWidth < cfg.dataBusBytes)) :
      getBurstWidth cfg g = beatWidth cfg gp g := by
    rw [getBurstWidth, beatWidth, ite_not]
    rcases hw with hw | hw
    · rw [if_neg hw, if_neg hw]
    · rw [if_neg hw]
  unfold setupBurstType at h
  simp only at h
  split at h
  · rename_i hc
    obtain ⟨rfl, rfl⟩ := Prod.mk.inj (Option.some.inj h)
    have hlt : ¬gp.streamingWidth < gp.dataLength := by omega
    exact ⟨by simp [hlt], by simp, by simp [hc], rfl, hkept (.inr fun h => hlt h.1)⟩
  split at h
  · rename_i hc hle
    obtain ⟨rfl, rfl⟩ := Prod.mk.inj (Option.some.inj h)
    exact ⟨by simp [hle], by simp, by simp [hc], rfl, hkept (.inr fun h => not_lt.2 hle h.1)⟩
  rename_i hc hle
  have hne : ¬gp.streamingWidth = gp.dataLength := by omega
  split at h
  · rename_i hbus
    obtain ⟨rfl, rfl⟩ := Prod.mk.inj (Option.some.inj h)
    exact ⟨by simp [not_le.1 hle], fun _ => hbus.le, by simp [hne], rfl, hkept (.inr fun h => h.2.ne hbus)⟩
  split at h
  · rename_i hw
    obtain ⟨rfl, rfl⟩ := Prod.mk.inj (Option.some.inj h)
    exact ⟨by simp [not_le.1 hle], fun _ => hw.1.le, by simp [hne], rfl, hkept (.inl (hsw.trans_le hw.2).ne')⟩
  split at h
  · rename_i hw
    obtain ⟨rfl, rfl⟩ := Prod.mk.inj (Option.some.inj h)
    refine ⟨by simp [not_le.1 hle], fun _ => hw.1.le, by simp [hne], rfl, ?_⟩
    have hpos : (if 1 < gp.streamingWidth then gp.streamingWidth / 2 * 2 else gp.streamingWidth) ≠ 0 := by
      split <;> omega
    have hwidth : beatWidth cfg gp g = if 1 < gp.streamingWidth then gp.streamingWidth / 2 * 2 else gp.streamingWidth := by
      rw [beatWidth, ite_not, if_pos hw.2, if_pos ⟨not_le.1 hle, hw.1⟩]
    rw [hwidth]
    exact if_neg hpos
  · cases h

/-- What `Validate` and the constructor leave of an accepted payload. -/
theorem valid_of_validate {tr : Transaction} (htr : Transaction.ofPayload cfg gp g = some tr) (hv : tr.validate cfg = true) :
    tr.Valid cfg ∧ tr.gp = gp ∧ tr.genattr = { g with burstWidth := tr.genattr.burstWidth } ∧ tr.width cfg = beatWidth cfg gp g ∧
      tr.numBeats ≤ cfg.proto.maxBurstLength ∧ (tr.isRead cfg || tr.isWrite cfg) = true := by
  obtain ⟨⟨burstType, g'⟩, hsetup, rfl⟩ := Option.map_eq_some_iff.1 htr
  simp only [Transaction.validate, Bool.and_eq_true, decide_eq_true_eq] at hv
  obtain ⟨⟨⟨⟨hlen, hsw⟩, hwidth⟩, hbeats⟩, hrw⟩ := hv
  obtain ⟨hfix, hbus, hwrap, hg, hw⟩ := setupBurstType_spec (Nat.pos_of_ne_zero hsw) hsetup
  refine ⟨⟨Nat.pos_of_ne_zero hlen, Nat.pos_of_ne_zero hsw, ?_, hfix, hbus, ?_, rfl⟩, rfl, hg, hw, hbeats, hrw⟩
  · simp only [Transaction.widths, List.mem_cons, List.not_mem_nil, or_false] at hwidth
    rcases hwidth with h | h | h | h | h | h | h | h
    exacts [⟨0, by omega, h⟩, ⟨1, by omega, h⟩, ⟨2, by omega, h⟩, ⟨3, by omega, h⟩, ⟨4, by omega, h⟩, ⟨5, by omega, h⟩, ⟨6, by omega, h⟩, ⟨7, by omega, h⟩]
  · rw [hwrap, hg]

/-- An accepted payload has data exactly when it is a TLM write. -/
theorem hasData_iff {tr : Transaction} (hrw : (tr.isRead cfg || tr.isWrite cfg) = true) (hread : tr.isRead cfg = false) :
    tr.hasData cfg = true ↔ tr.gp.command = .write := by
  rw [hread, Bool.false_or] at hrw
  simp only [Transaction.isRead, Bool.or_eq_false_iff, GenericPayload.isRead, decide_eq_false_iff_not] at hread
  simp only [Transaction.isWrite, Transaction.isEvict, Transaction.isWriteBarrier, Transaction.isIgnoreWrite, GenericPayload.isWrite] at hrw
  simp only [Transaction.hasData, Transaction.isBarrier, Transaction.isEvict, Transaction.isIgnoreWrite]
  cases hc : tr.gp.command with
  | read => exact absurd hc hread.2
  | write => simp
  | ignore =>
    simp only [hc, decide_true, Bool.true_and, reduceCtorEq, decide_false, Bool.or_false, Bool.and_eq_true, Bool.or_eq_true,
      Bool.not_eq_true', iff_false, Bool.not_eq_false] at hrw ⊢
    refine ⟨hrw.1, ?_⟩
    rcases hrw.2 with he | hb
    · exact .inr he
    · exact .inl hb.2

namespace Transaction

variable {tr : Transaction}

/-! ### The number of beats -/

theorem sub_div_mul (a n : ℕ) : a - a / n * n = a % n := by
  have := Nat.div_add_mod' a n
  omega

/-- A fixed burst announces the beats it has. -/
theorem Valid.numBeats_fixed (h : tr.Valid cfg) (hfix : tr.burstType = .fixed) :
    tr.numBeats = tr.beats cfg ↔
      tr.gp.dataLength + (tr.width cfg - tr.gp.address.toNat % tr.width cfg) - 1 < 2 ^ 32 ∧
        (tr.gp.dataLength + (tr.width cfg - tr.gp.address.toNat % tr.width cfg) - 1) / (tr.width cfg - tr.gp.address.toNat % tr.width cfg) =
          (tr.gp.dataLength + tr.step cfg - 1) / tr.step cfg := by
  have hcounted : 0 < tr.width cfg - tr.gp.address.toNat % tr.width cfg := Nat.sub_pos_of_lt (Nat.mod_lt _ h.width_pos)
  have hstep : tr.step cfg ≤ tr.width cfg - tr.gp.address.toNat % tr.width cfg :=
    (min_le_right _ _).trans (h.min_sub_mod _ ▸ min_le_right _ _)
  have hle : (tr.gp.dataLength + (tr.width cfg - tr.gp.address.toNat % tr.width cfg) - 1) / (tr.width cfg - tr.gp.address.toNat % tr.width cfg) ≤
      (tr.gp.dataLength + tr.step cfg - 1) / tr.step cfg := by
    by_contra hlt
    have hsmall := (lt_ceil_iff hcounted).1 (not_le.1 hlt)
    exact lt_irrefl _ ((lt_ceil_iff h.step_pos).2 ((Nat.mul_le_mul_left _ hstep).trans_lt hsmall))
  have hwidth : tr.width cfg - tr.gp.address.toNat % tr.width cfg ≤ 2 ^ 32 := (Nat.sub_le _ _).trans (h.width_le.trans (by omega))
  rw [h.numBeats_eq, setupNumBeats, if_pos hfix, beats, if_pos hfix, sub_div_mul]
  exact mod_div_eq_iff hcounted hwidth hle

/-- Another burst announces the beats it has. -/
theorem Valid.numBeats_run (h : tr.Valid cfg) (hfix : tr.burstType ≠ .fixed) :
    tr.numBeats = tr.beats cfg ↔
      tr.gp.dataLength + tr.gp.address.toNat % tr.width cfg + tr.width cfg - 1 < 2 ^ 32 ∧
        (tr.gp.dataLength + tr.gp.address.toNat % tr.width cfg + tr.width cfg - 1) / tr.width cfg =
          (tr.gp.dataLength + tr.gp.address.toNat % tr.laneWidth cfg + tr.laneWidth cfg - 1) / tr.laneWidth cfg := by
  obtain ⟨k, hk⟩ := Nat.exists_eq_add_one_of_ne_zero h.length_pos.ne'
  have hle : (tr.gp.dataLength + tr.gp.address.toNat % tr.width cfg + tr.width cfg - 1) / tr.width cfg ≤
      (tr.gp.dataLength + tr.gp.address.toNat % tr.laneWidth cfg + tr.laneWidth cfg - 1) / tr.laneWidth cfg := by
    rw [hk, ceil_eq _ _ h.width_pos, ceil_eq _ _ h.laneWidth_pos]
    exact Nat.add_le_add_right (div_sub_div_le h.laneWidth_dvd.1 h.width_pos (Nat.le_add_right _ _)) 1
  have hwidth : tr.width cfg ≤ 2 ^ 32 := h.width_le.trans (by omega)
  have hmod : ((tr.gp.dataLength + tr.gp.address.toNat % tr.width cfg) % 2 ^ 32 + tr.width cfg - 1) % 2 ^ 32 =
      (tr.gp.dataLength + tr.gp.address.toNat % tr.width cfg + tr.width cfg - 1) % 2 ^ 32 := by
    rw [Nat.add_sub_assoc h.width_pos, Nat.add_sub_assoc h.width_pos, Nat.mod_add_mod]
  rw [h.numBeats_eq, setupNumBeats, if_neg hfix, beats, if_neg hfix, sub_div_mul, hmod]
  exact mod_div_eq_iff h.width_pos hwidth hle

/-! ### Where the bytes go -/

/-- A fixed burst repeats its addresses and its byte enables. -/
theorem Valid.carried_fixed (h : tr.Valid cfg) (hfix : tr.burstType = .fixed) (k : ℕ) :
    (tr.Carried cfg k ↔ tr.gp.enabled (k % tr.step cfg) = true) ∧ tr.writtenAddr cfg k = tr.gp.address.toNat + k % tr.step cfg := by
  have hlt : k % tr.step cfg < tr.laneWidth cfg - tr.gp.address.toNat % tr.laneWidth cfg := (Nat.mod_lt _ h.step_pos).trans_le (min_le_right _ _)
  rw [← h.min_sub_mod, lt_min_iff] at hlt
  have haddr : (tr.burst cfg).beatAddr (tr.beatOf cfg k) = tr.gp.address.toNat := by
    simp [Burst.beatAddr, burst, hfix]
  have hle : (tr.burst cfg).beatAddr (tr.beatOf cfg k) ≤ tr.gp.address.toNat + k % tr.step cfg := haddr ▸ Nat.le_add_right _ _
  have hsize : (tr.burst cfg).beatAddr (tr.beatOf cfg k) / (tr.burst cfg).size = (tr.gp.address.toNat + k % tr.step cfg) / (tr.burst cfg).size := by
    rw [haddr]
    exact (add_div_eq_of_lt h.width_pos hlt.2).symm
  have hbus : (tr.burst cfg).beatAddr (tr.beatOf cfg k) / cfg.dataBusBytes = (tr.gp.address.toNat + k % tr.step cfg) / cfg.dataBusBytes := by
    rw [haddr]
    exact (add_div_eq_of_lt (Nat.two_pow_pos _) hlt.1).symm
  obtain ⟨hlane, hactive⟩ := Burst.active_of_div_eq h.width_pos hle hsize hbus
  have hplace : tr.placeOf cfg k = k % tr.step cfg := if_pos hfix
  rw [Carried, writtenAddr, laneOf, hplace]
  exact ⟨and_iff_left hactive, hlane⟩

/-- The beat of byte `k` starts in the byte's transfer and bus word, as long as the beats are counted
as the bus cuts them. -/
theorem Valid.linearAddr_spec (h : tr.Valid cfg) (hfix : tr.burstType ≠ .fixed)
    (hcount : (tr.gp.dataLength + tr.gp.address.toNat % tr.width cfg + tr.width cfg - 1) / tr.width cfg = tr.beats cfg) {k : ℕ}
    (hk : k < tr.gp.dataLength) :
    (tr.burst cfg).linearAddr (tr.beatOf cfg k) ≤ tr.gp.address.toNat + k ∧
      (tr.burst cfg).linearAddr (tr.beatOf cfg k) / tr.width cfg = (tr.gp.address.toNat + k) / tr.width cfg ∧
        (tr.burst cfg).linearAddr (tr.beatOf cfg k) / cfg.dataBusBytes = (tr.gp.address.toNat + k) / cfg.dataBusBytes := by
  obtain ⟨last, hlast⟩ := Nat.exists_eq_add_one_of_ne_zero h.length_pos.ne'
  obtain ⟨hdw, hdb⟩ := h.laneWidth_dvd
  rw [beats, if_neg hfix, hlast, ceil_eq _ _ h.width_pos, ceil_eq _ _ h.laneWidth_pos] at hcount
  have hagree : ∀ j ≤ k, (tr.gp.address.toNat + j) / tr.width cfg - tr.gp.address.toNat / tr.width cfg =
      (tr.gp.address.toNat + j) / tr.laneWidth cfg - tr.gp.address.toNat / tr.laneWidth cfg := fun j hj =>
    div_sub_div_eq_of_le hdw h.width_pos (Nat.succ.inj hcount) (by omega)
  have hn : ((tr.burst cfg).addr + k) / (tr.burst cfg).size - (tr.burst cfg).addr / (tr.burst cfg).size = tr.beatOf cfg k := by
    rw [beatOf, if_neg hfix, mod_add_div_eq _ _ h.laneWidth_pos]
    exact hagree k le_rfl
  obtain ⟨hle, hsize, hlane⟩ := Burst.linearAddr_spec (b := tr.burst cfg) h.width_pos hn hagree
  exact ⟨hle, hsize, div_eq_of_dvd hdb hlane⟩

/-- A byte whose beat does not wrap goes to its own address. -/
theorem Valid.carried_run (h : tr.Valid cfg) (hfix : tr.burstType ≠ .fixed)
    (hcount : (tr.gp.dataLength + tr.gp.address.toNat % tr.width cfg + tr.width cfg - 1) / tr.width cfg = tr.beats cfg) {k : ℕ}
    (hk : k < tr.gp.dataLength) (haddr : (tr.burst cfg).beatAddr (tr.beatOf cfg k) = (tr.burst cfg).linearAddr (tr.beatOf cfg k)) :
    (tr.Carried cfg k ↔ tr.gp.enabled k = true) ∧ tr.writtenAddr cfg k = tr.gp.address.toNat + k := by
  obtain ⟨hle, hsize, hbus⟩ := h.linearAddr_spec hfix hcount hk
  rw [← haddr] at hle hsize hbus
  obtain ⟨hlane, hactive⟩ := Burst.active_of_div_eq h.width_pos hle hsize hbus
  have hplace : tr.placeOf cfg k = k := if_neg hfix
  rw [Carried, writtenAddr, laneOf, hplace]
  exact ⟨and_iff_left hactive, hlane⟩

/-- The beat of byte `k` wraps exactly when the byte lies past the end of the burst's block. -/
theorem Valid.wraps_iff (h : tr.Valid cfg) (hfix : tr.burstType ≠ .fixed)
    (hcount : (tr.gp.dataLength + tr.gp.address.toNat % tr.width cfg + tr.width cfg - 1) / tr.width cfg = tr.beats cfg) {k : ℕ}
    (hk : k < tr.gp.dataLength) :
    (tr.burst cfg).wrapBoundary + (tr.burst cfg).total ≤ (tr.burst cfg).linearAddr (tr.beatOf cfg k) ↔
      (tr.burst cfg).total ≤ tr.gp.address.toNat % (tr.burst cfg).total + k := by
  obtain ⟨hle, hsize, -⟩ := h.linearAddr_spec hfix hcount hk
  have hmod : (tr.burst cfg).wrapBoundary + tr.gp.address.toNat % (tr.burst cfg).total = tr.gp.address.toNat :=
    alignDown_add_mod tr.gp.address.toNat (tr.burst cfg).total
  have hdvd : tr.width cfg ∣ (tr.burst cfg).wrapBoundary + (tr.burst cfg).total := by
    have htotal : tr.width cfg ∣ (tr.burst cfg).total := Nat.dvd_mul_right _ _
    exact Nat.dvd_add (htotal.trans (dvd_alignDown _ _)) htotal
  refine ⟨fun hw => by omega, fun hw => ?_⟩
  have hin : (tr.burst cfg).wrapBoundary + (tr.burst cfg).total ≤ alignDown (tr.gp.address.toNat + k) (tr.width cfg) :=
    (le_alignDown_iff hdvd).2 (by omega)
  rw [alignDown, ← hsize] at hin
  exact hin.trans (alignDown_le _ _)

/-- A byte whose beat wraps does not get to its address. -/
theorem Valid.wrapped (h : tr.Valid cfg) (hwrap : tr.burstType = .wrap) (hlen : tr.awlen cfg < 2 ^ 32)
    (hcount : (tr.gp.dataLength + tr.gp.address.toNat % tr.width cfg + tr.width cfg - 1) / tr.width cfg = tr.beats cfg) {k : ℕ}
    (hk : k < tr.gp.dataLength) (hw : (tr.burst cfg).wrapBoundary + (tr.burst cfg).total ≤ (tr.burst cfg).linearAddr (tr.beatOf cfg k))
    (hcarried : tr.Carried cfg k) : BitVec.ofNat 64 (tr.writtenAddr cfg k) ≠ BitVec.ofNat 64 (tr.gp.address.toNat + k) := by
  have hfix : tr.burstType ≠ .fixed := by simp [hwrap]
  obtain ⟨hle, hsize, -⟩ := h.linearAddr_spec hfix hcount hk
  have haddr : (tr.burst cfg).beatAddr (tr.beatOf cfg k) = (tr.burst cfg).linearAddr (tr.beatOf cfg k) - (tr.burst cfg).total := by
    simp only [Burst.beatAddr]
    rw [show (tr.burst cfg).type = .wrap from hwrap]
    exact if_pos hw
  have hactive : (tr.burst cfg).linearAddr (tr.beatOf cfg k) - (tr.burst cfg).total ≤ tr.writtenAddr cfg k ∧
      tr.writtenAddr cfg k < alignDown ((tr.burst cfg).linearAddr (tr.beatOf cfg k) - (tr.burst cfg).total) (tr.width cfg) + tr.width cfg :=
    haddr ▸ hcarried.2
  have hend := lt_alignDown_add (tr.gp.address.toNat + k) h.width_pos
  rw [alignDown, ← hsize] at hend
  have hdown1 := alignDown_le ((tr.burst cfg).linearAddr (tr.beatOf cfg k) - (tr.burst cfg).total) (tr.width cfg)
  have hdown2 := alignDown_le ((tr.burst cfg).linearAddr (tr.beatOf cfg k)) (tr.width cfg)
  rw [alignDown] at hdown2
  have hwidth := h.width_le
  have htotal : tr.width cfg ≤ (tr.burst cfg).total := Nat.le_mul_of_pos_right _ (Nat.succ_pos _)
  have hsmall : (tr.burst cfg).total ≤ 128 * 2 ^ 32 := Nat.mul_le_mul hwidth hlen
  intro heq
  have hmod := congrArg BitVec.toNat heq
  rw [BitVec.toNat_ofNat, BitVec.toNat_ofNat] at hmod
  omega

/-! ### Delivery -/

/-- The transaction with other bytes. -/
def withData (tr : Transaction) (data : ℕ → Byte) : Transaction := { tr with gp := { tr.gp with data := data } }

theorem ofPayload_withData (htr : Transaction.ofPayload cfg gp g = some tr) (data : ℕ → Byte) :
    Transaction.ofPayload cfg { gp with data := data } g = some (tr.withData data) := by
  obtain ⟨_, hsetup, rfl⟩ := Option.map_eq_some_iff.1 htr
  exact Option.map_eq_some_iff.2 ⟨_, hsetup, rfl⟩

theorem Valid.withData (h : tr.Valid cfg) (data : ℕ → Byte) : (tr.withData data).Valid cfg :=
  ⟨h.length_pos, h.streaming_pos, h.width_eq, h.fixed_iff, h.fixed_le, h.wrap_iff, h.numBeats_eq⟩

/-- The address channel announces the beats, or one under the barrier attribute of ACE. -/
theorem Valid.announced_iff (h : tr.Valid cfg) (hmax : tr.numBeats ≤ cfg.proto.maxBurstLength) (hbeats : tr.numBeats = tr.beats cfg) :
    tr.beats cfg = tr.awlen cfg + 1 ↔ (cfg.proto.isAce = true → tr.genattr.barrier = true → tr.beats cfg = 1) := by
  have hpos := h.beats_pos
  have hproto : cfg.proto.maxBurstLength ≤ 256 := by cases cfg.proto <;> simp [Axi.Protocol.maxBurstLength]
  have hfits := cfg.axLen_fits
  unfold awlen
  split
  · rename_i hb
    obtain ⟨hace, hbar⟩ := (Bool.and_eq_true _ _).mp hb
    simp [hace, hbar]
  · rename_i hb
    have hno : ¬(cfg.proto.isAce = true ∧ tr.genattr.barrier = true) := fun hab => hb ((Bool.and_eq_true _ _).mpr hab)
    have hlen : (tr.numBeats + 2 ^ 32 - 1) % 2 ^ 32 = tr.numBeats - 1 := by omega
    rw [hlen, Nat.mod_eq_of_lt (by omega)]
    refine iff_of_true (by omega) fun hace hbar => absurd ⟨hace, hbar⟩ hno

/-- `wlast` marks the last beat when the beats are those counted. -/
theorem Valid.last_iff (h : tr.Valid cfg) :
    (∀ n beat, ((List.range' 0 (tr.beats cfg)).map (tr.beatAt cfg))[n]? = some beat → (beat.last = true ↔ n + 1 = tr.beats cfg)) ↔
      tr.numBeats = tr.beats cfg := by
  have hpos := h.beats_pos
  have hget : ∀ n < tr.beats cfg, ((List.range' 0 (tr.beats cfg)).map (tr.beatAt cfg))[n]? = some (tr.beatAt cfg n) := fun n hn => by
    simp [List.getElem?_range' hn]
  have hlast : ∀ n, (tr.beatAt cfg n).last = true ↔ n + 1 = tr.numBeats := fun n => decide_eq_true_iff
  refine ⟨fun hall => ?_, fun heq n beat hn => ?_⟩
  · have := hall (tr.beats cfg - 1) _ (hget _ (by omega))
    rw [hlast] at this
    omega
  · have hlt : n < tr.beats cfg := by
      have := (List.getElem?_eq_some_iff.1 hn).1
      simpa using this
    obtain rfl := Option.some.inj ((hget n hlt).symm.trans hn)
    rw [hlast, heq]

/-- The phase delivers all bytes when the beats are counted right and each byte goes where it belongs. -/
theorem Valid.delivers_iff (h : tr.Valid cfg) (hdata : tr.hasData cfg = true) (hmax : tr.numBeats ≤ cfg.proto.maxBurstLength) :
    (∀ data, ∃ beats, (tr.withData data).Emits cfg beats ∧ (tr.withData data).Delivers cfg beats) ↔
      tr.numBeats = tr.beats cfg ∧ (cfg.proto.isAce = true → tr.genattr.barrier = true → tr.beats cfg = 1) ∧
        ∀ k < tr.gp.dataLength, (tr.Carried cfg k ↔ tr.gp.enabled k = true) ∧
          (tr.gp.enabled k = true → BitVec.ofNat 64 (tr.writtenAddr cfg k) = tr.gp.byteAddr k) := by
  have hlists : ∀ data : ℕ → Byte,
      (((tr.withData data).burst cfg).writes cfg.dataBusBytes
          (((List.range' 0 (tr.beats cfg)).map ((tr.withData data).beatAt cfg)).map (·.toBeat))).map (Prod.map (BitVec.ofNat 64) id) =
        (List.range tr.gp.dataLength).filterMap fun k =>
          if tr.Carried cfg k then some (BitVec.ofNat 64 (tr.writtenAddr cfg k), data k) else none := fun data => by
    refine (congrArg _ (h.withData data).writes_eq).trans ?_
    rw [List.map_filterMap]
    refine List.filterMap_congr fun k _ => ?_
    rw [apply_ite (Option.map _)]
    rfl
  have : Nontrivial Byte := ⟨0, 1, by simp⟩
  have hbytes : (∀ data : ℕ → Byte,
      ((List.range tr.gp.dataLength).filterMap fun k => if tr.Carried cfg k then some (BitVec.ofNat 64 (tr.writtenAddr cfg k), data k) else none) =
        (List.range tr.gp.dataLength).filterMap fun k => if tr.gp.enabled k = true then some (tr.gp.byteAddr k, data k) else none) ↔
      ∀ k ∈ List.range tr.gp.dataLength, (tr.Carried cfg k ↔ tr.gp.enabled k = true) ∧
        (tr.gp.enabled k = true → BitVec.ofNat 64 (tr.writtenAddr cfg k) = tr.gp.byteAddr k) := filterMap_eq_iff
  simp only [List.mem_range] at hbytes
  rw [← hbytes]
  refine ⟨fun hall => ?_, fun ⟨hbeats, hbarrier, hwrites⟩ data => ?_⟩
  · have hone : ∀ data, (tr.withData data).Delivers cfg ((List.range' 0 (tr.beats cfg)).map ((tr.withData data).beatAt cfg)) := fun data => by
      obtain ⟨beats, hemits, hdel⟩ := hall data
      obtain rfl := ((h.withData data).emits_iff hdata).1 hemits
      exact hdel
    have hlast := (hone fun _ => 0).last
    rw [List.length_map, List.length_range'] at hlast
    have hbeats := (h.withData fun _ => 0).last_iff.1 hlast
    have hlen := (hone fun _ => 0).announced
    rw [List.length_map, List.length_range'] at hlen
    exact ⟨hbeats, (h.announced_iff hmax hbeats).1 hlen, fun data => (hlists data).symm.trans (hone data).writes⟩
  · refine ⟨_, ((h.withData data).emits_iff hdata).2 rfl, ?_, ?_, (hlists data).trans (hwrites data)⟩
    · rw [List.length_map, List.length_range']
      exact (h.announced_iff hmax hbeats).2 hbarrier
    · rw [List.length_map, List.length_range']
      exact (h.withData data).last_iff.2 hbeats

/-! ### The condition is exact -/

theorem ofNat_add_inj {a x y : ℕ} (hx : x < 2 ^ 64) (hy : y < 2 ^ 64) : BitVec.ofNat 64 (a + x) = BitVec.ofNat 64 (a + y) ↔ x = y := by
  refine ⟨fun h => ?_, fun h => by rw [h]⟩
  have hmod := congrArg BitVec.toNat h
  rw [BitVec.toNat_ofNat, BitVec.toNat_ofNat] at hmod
  omega

theorem Valid.places_fixed (h : tr.Valid cfg) (hfix : tr.burstType = .fixed) :
    (∀ k < tr.gp.dataLength, (tr.Carried cfg k ↔ tr.gp.enabled k = true) ∧
        (tr.gp.enabled k = true → BitVec.ofNat 64 (tr.writtenAddr cfg k) = tr.gp.byteAddr k)) ↔
      (∀ k < tr.gp.dataLength, tr.gp.enabled (k % tr.step cfg) = tr.gp.enabled k) ∧
        ∀ k < tr.gp.dataLength, tr.gp.enabled k = true → k % tr.step cfg = k % tr.gp.streamingWidth := by
  have hbus : cfg.dataBusBytes ≤ 2 ^ 7 := Nat.pow_le_pow_right two_pos cfg.busBits_le
  have hsw := h.fixed_le hfix
  have hplace : ∀ k, BitVec.ofNat 64 (tr.writtenAddr cfg k) = tr.gp.byteAddr k ↔ k % tr.step cfg = k % tr.gp.streamingWidth := fun k => by
    have hstep : k % tr.step cfg < tr.gp.streamingWidth := (Nat.mod_lt _ h.step_pos).trans_le (min_le_left _ _)
    have hmod : k % tr.gp.streamingWidth < tr.gp.streamingWidth := Nat.mod_lt _ h.streaming_pos
    rw [(h.carried_fixed hfix k).2, GenericPayload.byteAddr_eq]
    exact ofNat_add_inj (by omega) (by omega)
  rw [← forall₂_and]
  refine forall₂_congr fun k _ => and_congr ?_ (imp_congr Iff.rfl (hplace k))
  rw [(h.carried_fixed hfix k).1]
  exact Bool.eq_iff_iff.symm

/-- The bytes of another burst, of which only a wrapping one sends some elsewhere. -/
theorem Valid.places_run (h : tr.Valid cfg) (hfix : tr.burstType ≠ .fixed)
    (hcount : (tr.gp.dataLength + tr.gp.address.toNat % tr.width cfg + tr.width cfg - 1) / tr.width cfg = tr.beats cfg) :
    (∀ k < tr.gp.dataLength, (tr.Carried cfg k ↔ tr.gp.enabled k = true) ∧
        (tr.gp.enabled k = true → BitVec.ofNat 64 (tr.writtenAddr cfg k) = tr.gp.byteAddr k)) ↔
      (tr.burstType = .wrap → ∀ k < tr.gp.dataLength, tr.gp.enabled k = true →
        tr.gp.address.toNat % (tr.burst cfg).total + k < (tr.burst cfg).total) := by
  have hlen : tr.awlen cfg < 2 ^ 32 := by
    unfold awlen
    split
    · exact Nat.two_pow_pos 32
    · exact (Nat.mod_le _ _).trans_lt (Nat.mod_lt _ (Nat.two_pow_pos 32))
  have hsw : tr.gp.dataLength ≤ tr.gp.streamingWidth := not_lt.1 fun hlt => hfix (h.fixed_iff.2 hlt)
  have hplace : ∀ k < tr.gp.dataLength, tr.gp.byteAddr k = BitVec.ofNat 64 (tr.gp.address.toNat + k) := fun k hk => by
    rw [GenericPayload.byteAddr_eq, Nat.mod_eq_of_lt (hk.trans_le hsw)]
  -- a byte whose beat does not wrap is written where it belongs
  have hgood : ∀ k < tr.gp.dataLength, (tr.burst cfg).beatAddr (tr.beatOf cfg k) = (tr.burst cfg).linearAddr (tr.beatOf cfg k) →
      (tr.Carried cfg k ↔ tr.gp.enabled k = true) ∧
        (tr.gp.enabled k = true → BitVec.ofNat 64 (tr.writtenAddr cfg k) = tr.gp.byteAddr k) := fun k hk haddr => by
    obtain ⟨hcarried, hwritten⟩ := h.carried_run hfix hcount hk haddr
    exact ⟨hcarried, fun _ => by rw [hwritten, hplace k hk]⟩
  by_cases hwrap : tr.burstType = .wrap
  · rw [imp_iff_right hwrap]
    refine forall₂_congr fun k hk => ?_
    have hwraps := h.wraps_iff hfix hcount hk
    have htype : (tr.burst cfg).type = .wrap := hwrap
    by_cases hw : (tr.burst cfg).wrapBoundary + (tr.burst cfg).total ≤ (tr.burst cfg).linearAddr (tr.beatOf cfg k)
    · refine ⟨fun ⟨hcarried, hwritten⟩ hen => ?_, fun hno => ?_⟩
      · refine absurd (hwritten hen) ?_
        rw [hplace k hk]
        exact h.wrapped hwrap hlen hcount hk hw (hcarried.2 hen)
      · have hen : ¬tr.gp.enabled k = true := fun hen => absurd (hno hen) (not_lt.2 (hwraps.1 hw))
        have hcarried : ¬tr.Carried cfg k := fun hc => hen (by
          have hplaceOf : tr.placeOf cfg k = k := if_neg hfix
          exact hplaceOf ▸ hc.1)
        exact ⟨iff_of_false hcarried hen, fun h => absurd h hen⟩
    · refine iff_of_true (hgood k hk ?_) fun _ => not_le.1 fun hle => hw (hwraps.2 hle)
      simp only [Burst.beatAddr, htype]
      exact if_neg hw
  · refine iff_of_true (fun k hk => hgood k hk ?_) fun h => absurd h hwrap
    have htype : (tr.burst cfg).type = .incr := by
      cases hb : tr.burstType with
      | fixed => exact absurd hb hfix
      | incr => exact hb
      | wrap => exact absurd hb hwrap
    simp only [Burst.beatAddr, htype]

/-- One beat is all when the payload ends before the first cut. -/
theorem Valid.beats_eq_one_iff (h : tr.Valid cfg) : tr.beats cfg = 1 ↔ tr.gp.dataLength ≤ tr.cut cfg 1 := by
  have hpos := h.beats_pos
  rw [← not_lt, ← h.lt_beats_iff]
  omega

end Transaction

/-- **The write data phase delivers exactly the payloads that are `BeatsOk`**: the loop ends with the
beats announced, the last one marked, and their lanes write the payload's enabled bytes at their
addresses, for all bytes it may have. -/
theorem dataPhaseOk_iff (cfg : Config) (gp : GenericPayload) (g : Genattr) (hacc : Accepts cfg gp g) :
    DataPhaseOk cfg gp g ↔ BeatsOk cfg gp g := by
  obtain ⟨tr, htr, hv, hread⟩ := hacc
  obtain ⟨h, rfl, hg, hwidth, hmax, hrw⟩ := valid_of_validate htr hv
  have hdata := hasData_iff hrw hread
  have hphase : DataPhaseOk cfg tr.gp g ↔ ∀ data, ∃ beats, (tr.withData data).Emits cfg beats ∧ (tr.withData data).Delivers cfg beats := by
    refine forall_congr' fun data => ⟨?_, ?_⟩
    · rintro ⟨tr', beats, htr', hrest⟩
      obtain rfl := Option.some.inj ((Transaction.ofPayload_withData htr data).symm.trans htr')
      exact ⟨beats, hrest⟩
    · rintro ⟨beats, hrest⟩
      exact ⟨_, beats, Transaction.ofPayload_withData htr data, hrest⟩
  have hbarrier : tr.genattr.barrier = g.barrier := by rw [hg]
  have hlane : tr.laneWidth cfg = busWidth cfg tr.gp g := congrArg (min · _) hwidth
  rw [hphase, BeatsOk]
  by_cases hcmd : tr.gp.command = .write
  · rw [h.delivers_iff (hdata.2 hcmd) hmax, and_iff_right hcmd, h.beats_eq_one_iff]
    by_cases hfix : tr.burstType = .fixed
    · have hcut : tr.cut cfg 1 = tr.step cfg := by simp [Transaction.cut, hfix]
      rw [if_pos (h.fixed_iff.1 hfix), h.numBeats_fixed hfix, h.places_fixed hfix, hcut, hbarrier, Transaction.step, hlane, hwidth]
      constructor
      · rintro ⟨⟨h1, h2⟩, h3, h4, h5⟩
        exact ⟨h1, h2, h4, h5, h3⟩
      · rintro ⟨h1, h2, h4, h5, h3⟩
        exact ⟨⟨h1, h2⟩, h3, h4, h5⟩
    · have hcut : tr.gp.dataLength ≤ tr.cut cfg 1 ↔ tr.gp.dataLength + tr.gp.address.toNat % busWidth cfg tr.gp g ≤ busWidth cfg tr.gp g := by
        have hpos := h.length_pos
        simp only [Transaction.cut, if_neg hfix, Nat.one_mul, hlane]
        omega
      have hbeats : tr.beats cfg = (tr.gp.dataLength + tr.gp.address.toNat % tr.laneWidth cfg + tr.laneWidth cfg - 1) / tr.laneWidth cfg :=
        if_neg hfix
      have hwrap : tr.burstType = .wrap ↔ tr.gp.streamingWidth = tr.gp.dataLength ∧ g.wrap = true := by
        rw [h.wrap_iff, hg]
      have htotal (hn : tr.numBeats = tr.beats cfg) (hb : cfg.proto.isAce = true → tr.genattr.barrier = true → tr.beats cfg = 1) :
          (tr.burst cfg).total = tr.width cfg * tr.beats cfg := by
        rw [(h.announced_iff hmax hn).2 hb]
        rfl
      rw [if_neg fun hlt => hfix (h.fixed_iff.2 hlt), ← hwidth, hcut, ← hlane, hbarrier]
      rw [← hlane] at hcut
      constructor
      · rintro ⟨hn, hb, hplaces⟩
        obtain ⟨hfits, hcount⟩ := (h.numBeats_run hfix).1 hn
        have hinside := (h.places_run hfix (hcount.trans hbeats.symm)).1 hplaces
        rw [htotal hn fun ha hbar => h.beats_eq_one_iff.2 (hcut.2 (hb ha (hbarrier ▸ hbar))), hbeats, ← hcount] at hinside
        exact ⟨hfits, hcount, fun hsw hw => hinside (hwrap.2 ⟨hsw, hw⟩), hb⟩
      · rintro ⟨hfits, hcount, hinside, hb⟩
        have hn := (h.numBeats_run hfix).2 ⟨hfits, hcount⟩
        refine ⟨hn, hb, (h.places_run hfix (hcount.trans hbeats.symm)).2 fun htype => ?_⟩
        rw [htotal hn fun ha hbar => h.beats_eq_one_iff.2 (hcut.2 (hb ha (hbarrier ▸ hbar))), hbeats, ← hcount]
        exact hinside (hwrap.1 htype).1 (hwrap.1 htype).2
  · -- without data there is no beat
    have hno : ¬tr.hasData cfg = true := fun h => hcmd (hdata.1 h)
    refine iff_of_false (fun hall => ?_) fun h => hcmd h.1
    obtain ⟨beats, hemits, hdel⟩ := hall tr.gp.data
    have hnoData : ¬(tr.withData tr.gp.data).hasData cfg = true := hno
    rw [Transaction.Emits, if_neg hnoData] at hemits
    have hlen := hdel.announced
    rw [hemits] at hlen
    exact absurd hlen (Nat.succ_ne_zero _).symm

/-- An AXI4 bus of four bytes. -/
def narrowBus : Config := ⟨2, two_le_seven, .axi4, 8, le_rfl⟩

/-- Six bytes from an address that is not aligned are delivered. -/
theorem dataPhaseOk_of_unaligned :
    DataPhaseOk narrowBus { command := .write, address := 0x1003, dataLength := 6, streamingWidth := 6 } {} :=
  (dataPhaseOk_iff narrowBus _ {} ⟨_, rfl, rfl, rfl⟩).2
    ⟨rfl, by decide, by decide, (fun _ hwrap => nomatch hwrap), (fun hace => nomatch hace)⟩

/-- Two beats of a stream of four bytes, of which the first byte is enabled in the first and the second
byte in the second. -/
def streamedBytes : GenericPayload where
  command := .write
  dataLength := 8
  streamingWidth := 4
  byteEnable := [0xff, 0, 0, 0, 0, 0xff, 0, 0]

/-- The second beat is sent with the byte enables of the first. -/
theorem not_dataPhaseOk : Accepts narrowBus streamedBytes {} ∧ ¬DataPhaseOk narrowBus streamedBytes {} := by
  refine ⟨⟨_, rfl, rfl, rfl⟩, fun hall => ?_⟩
  obtain ⟨tr, beats, htr, hemits, hdel⟩ := hall fun _ => 0
  obtain rfl : ⟨streamedBytes, {}, .fixed, 2⟩ = tr := Option.some.inj htr
  obtain ⟨fuel, hfuel⟩ := hemits
  have hrun : Transaction.dataLoop narrowBus ⟨streamedBytes, {}, .fixed, 2⟩ 3 0 0 1 =
      some ((Transaction.dataLoop narrowBus ⟨streamedBytes, {}, .fixed, 2⟩ 3 0 0 1).getD []) := rfl
  have h1 := Transaction.dataLoop_mono (Nat.le_max_left fuel 3) hfuel
  have h2 := Transaction.dataLoop_mono (Nat.le_max_right fuel 3) hrun
  obtain rfl := Option.some.inj (h1.symm.trans h2)
  exact absurd hdel.writes (by decide +kernel)

end LibSystemCTLM.Tlm2Axi
