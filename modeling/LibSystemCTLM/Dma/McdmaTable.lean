import LibSystemCTLM.Dma.McdmaRegs
import LibSystemCTLM.Utils.RegApi
import Mathlib.Data.Fintype.Basic

/-!
# The register table of the MCDMA

`mcdma_reginfo` (`regs-mcdma.h`), and where the registers of the channels lie in the array. Only the status
registers of the first channels have bits that are read-only or cleared by a one; those of all others are plain ones
(`lookup_sr`).
-/

namespace LibSystemCTLM.Mcdma

open RegApi Tlm

/-- `R_S2MM_Channel_Observer_6 + 1`. -/
abbrev rMax : ℕ := 0x954 / 4 + 1

inductive Direction where
  | mm2s | s2mm
  deriving DecidableEq

instance : Fintype Direction := ⟨{.mm2s, .s2mm}, fun d => by cases d <;> decide⟩

/-! ### `mcdma_reginfo` -/

/-- Registers one after the other, without attributes. -/
def plainRegs (base : ℕ) (names : List String) : List (Info 4) :=
  names.zipIdx.map fun (name, i) => { name := some name, addr := BitVec.ofNat 64 (base + 4 * i) }

/-- `CH1SR` of either direction, and `CHnSR` of the other channels. -/
def srInfo (name : String) (addr : ℕ) (first : Bool) : Info 4 :=
  if first = true then { name := some name, ro := 0xffff0001, w1c := 0xe8, reset := 0x1, addr := BitVec.ofNat 64 addr }
  else { name := some name, addr := BitVec.ofNat 64 addr }

/-- The registers of a channel. -/
def channelInfo (dir : String) (base : ℕ) (stats : List String) (ch : ℕ) : List (Info 4) :=
  let pre := dir ++ "_CH" ++ toString (ch + 1)
  let addr := base + 0x40 * ch
  plainRegs addr [pre ++ "CR"] ++ [srInfo (pre ++ "SR") (addr + 0x4) (ch == 0)] ++
    plainRegs (addr + 0x8) (["CURDESC_LSB", "CURDESC_MSB", "TAILDESC_LSB", "TAILDESC_MSB"].map (pre ++ ·)) ++
    plainRegs (addr + 0x18) (stats.map (pre ++ ·))

/-- `MM2S_Channel_Observer_1` and the other five, and those of the other direction. -/
def observers (dir : String) (base : ℕ) : List (Info 4) :=
  plainRegs base ((List.range 6).map fun i => dir ++ "_Channel_Observer_" ++ toString (i + 1))

def mm2sInfo : List (Info 4) :=
  [{ name := some "MM2S_CCR", ro := 0x4, addr := 0x0 }] ++
    plainRegs 0x4 ["MM2S_CSR", "MM2S_CHEN", "MM2S_CHSER", "MM2S_ERR", "MM2S_CH_SCHD_TYPE", "MM2S_WRR_REG1", "MM2S_WRR_REG2",
      "MM2S_CHANNELS_SERVICED", "MM2S_ARCACHE_ARUSER"] ++
    [{ name := some "MM2S_INTR_STATUS", ro := 0xffffffff, addr := 0x28 }] ++
    (List.range 16).flatMap (channelInfo "MM2S" 0x40 ["PKTCOUNT_STAT"]) ++ observers "MM2S" 0x440

def s2mmInfo : List (Info 4) :=
  plainRegs 0x500 ["S2MM_CCR", "S2MM_CSR", "S2MM_CHEN", "S2MM_CHSER", "S2MM_ERR", "S2MM_PKTDROP", "S2MM__CHANNELS_SERVICED",
      "S2MM_AWCACHE_AWUSER", "S2MM_INTR_STATUS"] ++
    (List.range 16).flatMap (channelInfo "S2MM" 0x540 ["PKTDROP_STAT", "PKTCOUNT_STAT"]) ++ observers "S2MM" 0x940

/-- `mcdma_reginfo`. -/
def reginfo : Table 4 rMax where
  info := mm2sInfo ++ s2mmInfo ++ plainRegs 0x4b0 ["SG_CACHE_USER"]
  fits := by decide +kernel

/-! ### Where the registers lie -/

/-- `rb.regs`. -/
abbrev McdmaRegs := Regs 4 rMax

/-- `R_MM2S_CH1CR`, `R_S2MM_CH1CR`. -/
def Direction.base : Direction → ℕ
  | .mm2s => 0x40 / 4
  | .s2mm => 0x540 / 4

theorem Direction.base_le (d : Direction) : d.base ≤ 336 := by cases d <;> decide

/-- A register of a channel. -/
def chReg (d : Direction) (ch : Ch) (j : Fin 8) : Fin rMax :=
  ⟨d.base + 0x40 / 4 * ch + j, by have := d.base_le; have := ch.isLt; have := j.isLt; unfold rMax; omega⟩

/-- `CHnCR`. -/
def cr (d : Direction) (ch : Ch) : Fin rMax := chReg d ch 0

/-- `CHnSR`. -/
def sr (d : Direction) (ch : Ch) : Fin rMax := chReg d ch 1

/-- `R_MM2S_INTR_STATUS`, `R_S2MM_INTR_STATUS`. -/
def intrStatus : Direction → Fin rMax
  | .mm2s => ⟨0x28 / 4, by decide⟩
  | .s2mm => ⟨0x520 / 4, by decide⟩

/-- The address of a register. -/
def addrOf (k : Fin rMax) : Addr := BitVec.ofNat 64 (4 * k)

variable {d d' : Direction} {ch ch' : Ch} {i j : Fin 8}

theorem chReg_inj : chReg d ch i = chReg d' ch' j ↔ (d = d' ∧ ch = ch') ∧ i = j := by
  have hch := ch.isLt
  have hch' := ch'.isLt
  have hi := i.isLt
  have hj := j.isLt
  simp only [Fin.ext_iff, chReg]
  cases d <;> cases d' <;> simp only [Direction.base, reduceCtorEq, false_and, true_and, iff_false] <;> omega

@[simp] theorem intrStatus_ne_chReg : intrStatus d ≠ chReg d' ch j := by
  have hj := j.isLt
  rw [ne_eq, Fin.ext_iff]
  cases d <;> cases d' <;> simp only [intrStatus, chReg, Direction.base] <;> omega

@[simp] theorem intrStatus_inj : intrStatus d = intrStatus d' ↔ d = d' := by revert d d'; decide

/-! ### What the table says -/

/-- The columns `ro`, `w1c` and `reset` of a register. -/
def columns (k : ℕ) : BitVec 32 × BitVec 32 × BitVec 32 :=
  if k = 0 then (0x4, 0, 0)
  else if k = intrStatus .mm2s then (0xffffffff, 0, 0)
  else if k = sr .mm2s 0 ∨ k = sr .s2mm 0 then (0xffff0001, 0xe8, 0x1)
  else (0, 0, 0)

/-- An entry has the address of its register, and its columns. -/
theorem entries_spec :
    ∀ i ∈ entries rMax reginfo.info,
      i.addr = BitVec.ofNat 64 (4 * regIndex 4 i.addr) ∧ i.cor = 0 ∧ (i.ro, i.w1c, i.reset) = columns (regIndex 4 i.addr) := by
  decide +kernel

/-- There are entries for the registers of the channels, and for those of the interrupts. -/
theorem indices_spec :
    (∀ d ch, (cr d ch : ℕ) ∈ (entries rMax reginfo.info).map (fun i => regIndex 4 i.addr) ∧
        (sr d ch : ℕ) ∈ (entries rMax reginfo.info).map fun i => regIndex 4 i.addr) ∧
      ∀ d, (intrStatus d : ℕ) ∈ (entries rMax reginfo.info).map fun i => regIndex 4 i.addr := by
  decide +kernel

theorem columns_cr (d : Direction) (ch : Ch) : columns (cr d ch) = (0, 0, 0) := by
  revert d ch
  decide

theorem columns_sr (d : Direction) (ch : Ch) : columns (sr d ch) = if ch = 0 then (0xffff0001, 0xe8, 0x1) else (0, 0, 0) := by
  revert d ch
  decide

/-- A register is accessed at its address only. -/
theorem addr_of_lookup {addr : Addr} {e : Info 4} {k : Fin rMax} (h : reginfo.lookup addr = some (e, k)) : addr = addrOf k := by
  obtain ⟨he, rfl, hk⟩ := Table.lookup_eq_some h
  rw [addrOf, hk]
  exact (entries_spec e he).1

theorem columns_of_lookup {addr : Addr} {e : Info 4} {k : Fin rMax} (h : reginfo.lookup addr = some (e, k)) :
    (e.ro, e.w1c, e.reset) = columns k := by
  obtain ⟨he, rfl, hk⟩ := Table.lookup_eq_some h
  rw [hk]
  exact (entries_spec e he).2.2

theorem lookup_sr (d : Direction) (ch : Ch) :
    ∃ e, reginfo.lookup (addrOf (sr d ch)) = some (e, sr d ch) ∧
      e.ro = (if ch = 0 then 0xffff0001 else 0) ∧ e.w1c = (if ch = 0 then 0xe8 else 0) := by
  obtain ⟨i, hi, hidx⟩ := List.mem_map.1 (indices_spec.1 d ch).2
  have haddr : i.addr = addrOf (sr d ch) := by rw [(entries_spec i hi).1, hidx, addrOf]
  obtain ⟨e, k, hl⟩ := Table.exists_lookup hi
  have hk : k = sr d ch := Fin.ext ((Table.lookup_eq_some hl).2.2.trans hidx)
  subst hk
  have hcols := columns_of_lookup hl
  rw [columns_sr] at hcols
  refine ⟨e, haddr ▸ hl, ?_⟩
  by_cases hch : ch = 0
  · simp only [hch, if_true, Prod.mk.injEq] at hcols ⊢
    exact ⟨hcols.1, hcols.2.1⟩
  · simp only [hch, if_false, Prod.mk.injEq] at hcols ⊢
    exact ⟨hcols.1, hcols.2.1⟩

/-- `MM2S_INTR_STATUS` cannot be written. -/
theorem lookup_intrStatus {addr : Addr} {e : Info 4} (h : reginfo.lookup addr = some (e, intrStatus .mm2s)) : e.ro = 0xffffffff ∧ e.w1c = 0 := by
  have hcols : (e.ro, e.w1c, e.reset) = (0xffffffff, 0, 0) := columns_of_lookup h
  simp only [Prod.mk.injEq] at hcols
  exact ⟨hcols.1, hcols.2.1⟩

theorem cor_eq_zero : ∀ e ∈ entries rMax reginfo.info, e.cor = 0 := fun e he => (entries_spec e he).2.1

theorem regResetAll_eq (regs : McdmaRegs) {k : Fin rMax} (h : (k : ℕ) ∈ (entries rMax reginfo.info).map fun i => regIndex 4 i.addr) :
    reginfo.regResetAll regs k = (columns k).2.2 := by
  obtain ⟨e, he, hk, hreset⟩ := Table.regResetAll_of_mem h
  rw [hreset, ← hk, ← (entries_spec e he).2.2]

theorem reset_cr (regs : McdmaRegs) (d : Direction) (ch : Ch) : reginfo.regResetAll regs (cr d ch) = 0 := by
  rw [regResetAll_eq regs (indices_spec.1 d ch).1, columns_cr]

theorem reset_sr (regs : McdmaRegs) (d : Direction) (ch : Ch) : reginfo.regResetAll regs (sr d ch) = if ch = 0 then 1 else 0 := by
  rw [regResetAll_eq regs (indices_spec.1 d ch).2, columns_sr]
  split <;> rfl

theorem reset_intrStatus (regs : McdmaRegs) (d : Direction) : reginfo.regResetAll regs (intrStatus d) = 0 := by
  rw [regResetAll_eq regs (indices_spec.2 d)]
  cases d <;> rfl

end LibSystemCTLM.Mcdma
