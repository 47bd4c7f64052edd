import LibSystemCTLM.Tlm.Payload
import Mathlib.Data.BitVec

/-!
# Registers of the MCDMA

What both directions of `xilinx_mcdma` have in common: the registers of a channel (`regs-mcdma.h`), of which
the current and the tail descriptor are two words each, the idle bit of the status register, which the
directions have at different places.
-/

namespace LibSystemCTLM.Mcdma

open Tlm

/-- The channels that there are registers for. -/
abbrev Ch := Fin 16

/-- `reg_deposit`. -/
def regDeposit (dst : BitVec 32) (shift len : ℕ) (val : BitVec 32) : BitVec 32 :=
  dst &&& ~~~((BitVec.ofNat 32 (2 ^ len - 1)) <<< shift) ||| val <<< shift

/-- `FIELD_EX` of `IRQ_THRESHOLD`. -/
def irqThreshold (r : BitVec 32) : BitVec 32 := r >>> 16 &&& 0xff

/-- `FIELD_EX` of `RS`. -/
def rs (r : BitVec 32) : Bool := r.getLsbD 0

/-- `CHnCR` to `CHnTAILDESC_MSB` of one direction. -/
structure ChannelRegs where
  cr : BitVec 32 := 0
  sr : BitVec 32 := 0
  curdescLsb : BitVec 32 := 0
  curdescMsb : BitVec 32 := 0
  taildescLsb : BitVec 32 := 0
  taildescMsb : BitVec 32 := 0
  deriving DecidableEq

namespace ChannelRegs

variable (r : ChannelRegs) (shift : ℕ)

/-- `mm2s_cur` and `s2mm_cur`. -/
def cur : Addr := r.curdescMsb.setWidth 64 <<< 32 ||| r.curdescLsb.setWidth 64

/-- `mm2s_tail` and `s2mm_tail`. -/
def tail : Addr := r.taildescMsb.setWidth 64 <<< 32 ||| r.taildescLsb.setWidth 64

/-- The two writes of the current descriptor. -/
def setCur (a : Addr) : ChannelRegs := { r with curdescLsb := a.setWidth 32, curdescMsb := (a >>> 32).setWidth 32 }

/-- The idle bit. -/
def idle : Bool := r.sr.getLsbD shift

/-- `mm2s_set_idle` and `s2mm_set_idle`. -/
def setIdle (b : Bool) : ChannelRegs :=
  { r with sr := r.sr &&& ~~~(1#32 <<< shift) ||| (BitVec.ofBool b).setWidth 32 <<< shift }

/-- A descriptor is done: the interrupt, and the threshold again (`tmp == 0 || 1` is always so). -/
def raiseIrq : ChannelRegs := { r with sr := regDeposit (r.sr ||| 0x20) 16 8 (irqThreshold r.cr) }

@[simp] theorem cur_setCur (a : Addr) : (r.setCur a).cur = a := by
  apply BitVec.eq_of_getLsbD_eq
  intro i hi
  simp only [cur, setCur, BitVec.getLsbD_or, BitVec.getLsbD_shiftLeft, BitVec.getLsbD_setWidth, BitVec.getLsbD_ushiftRight]
  by_cases h : i < 32
  · simp [h, hi]
  · simp [h, hi, show i - 32 < 32 by omega, show i - 32 < 64 by omega, show 32 + (i - 32) = i by omega]

@[simp] theorem cur_setIdle (b : Bool) : (r.setIdle shift b).cur = r.cur := rfl

@[simp] theorem cur_raiseIrq : r.raiseIrq.cur = r.cur := rfl

@[simp] theorem cr_setIdle (b : Bool) : (r.setIdle shift b).cr = r.cr := rfl

@[simp] theorem idle_setCur (a : Addr) : (r.setCur a).idle shift = r.idle shift := rfl

variable {shift}

/-- The interrupt does not touch the idle bit. -/
theorem idle_raiseIrq (h : shift < 2) : r.raiseIrq.idle shift = r.idle shift := by
  obtain rfl | rfl : shift = 0 ∨ shift = 1 := by omega
  all_goals simp [idle, raiseIrq, regDeposit]

end ChannelRegs

end LibSystemCTLM.Mcdma
