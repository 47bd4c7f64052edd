import LibSystemCTLM.Dma.McdmaTable

/-!
# The interrupts of the MCDMA

The status bits of the channels and the two interrupts of `xilinx_mcdma`. A completed descriptor sets the IOC bit
at once and loads the threshold counter again (`tmp == 0 || 1` in `dma_thread` and in `stream_b_transport`), where
the packets were to be counted up to `IRQ_THRESHOLD`.

The interrupts of a run are as they are to be exactly if its steps meet `Harmless` (`runOk_irqs_iff`): a descriptor
ends a packet of a channel with a threshold of at most 1, a write of the status register of the first channel has a one
where the IOC bit is set, and one of the status register of another channel comes when the bit is clear and leaves it so. No interrupt
is high at a reset without an update pending, and software has not set bits in `S2MM_INTR_STATUS` that are of no channel.

## The model

A step is a reset, an access to the registers, the end of a descriptor, or `update_irqs`, once it is notified. The
next descriptor is whatever was in the one that is done. `since` counts the packets since the threshold counter was loaded.
A run starts behind a reset, as the array of registers has no values before.

## Honest scope

The transfers of the descriptors are left out, so a descriptor may be done at any time. There are registers for 16 channels.
-/

namespace LibSystemCTLM.Mcdma

open Foundation RegApi Tlm

/-! ### Registers -/

/-- `R_MM2S_CH1SR_IDLE_SHIFT`, `R_S2MM_CH1SR_IDLE_SHIFT`. -/
def Direction.idleShift : Direction → ℕ
  | .mm2s => 0
  | .s2mm => 1

/-- The registers of a channel. -/
def channel (regs : McdmaRegs) (d : Direction) (ch : Ch) : ChannelRegs where
  cr := regs (cr d ch)
  sr := regs (sr d ch)
  curdescLsb := regs (chReg d ch 2)
  curdescMsb := regs (chReg d ch 3)
  taildescLsb := regs (chReg d ch 4)
  taildescMsb := regs (chReg d ch 5)

/-- The registers of a channel that the engine writes. -/
def setChannel (regs : McdmaRegs) (d : Direction) (ch : Ch) (r : ChannelRegs) : McdmaRegs := fun k =>
  if k = sr d ch then r.sr else if k = chReg d ch 2 then r.curdescLsb else if k = chReg d ch 3 then r.curdescMsb else regs k

/-- A descriptor is done, from the test for the last one on. -/
def descDone (regs : McdmaRegs) (d : Direction) (ch : Ch) (next : Addr) : McdmaRegs :=
  let r := channel regs d ch
  let r := if r.cur = r.tail then r.setIdle d.idleShift true else r
  setChannel regs d ch (r.setCur next).raiseIrq

/-- `b_transport`. The tail descriptor of a channel, but the last one, starts it. -/
def bTransport (regs : McdmaRegs) (tr : Trans) : McdmaRegs × Trans :=
  let (regs', tr') := reginfo.regBTransport regs tr
  let regindex := regIndex 4 tr.address
  let ch : Ch := Fin.ofNat 16 ((regindex - 0x40 / 4) / (0x40 / 4))
  let starts := tr.isRead = false ∧ 0x40 / 4 ≤ regindex ∧ regindex ≤ 0x3d8 / 4 ∧ regindex - 0x40 / 4 * ch = 0x54 / 4 ∧ rs (regs' (cr .mm2s ch)) = true
  (if starts then setChannel regs' .mm2s ch ((channel regs' .mm2s ch).setIdle Direction.mm2s.idleShift false) else regs', { tr' with response := .ok })

/-- `R_MM2S_CH1SR_IOC_IRQ_MASK`, which is that of the other direction, too. -/
def ioc (regs : McdmaRegs) (d : Direction) (ch : Ch) : Bool := (regs (sr d ch)).getLsbD 5

/-- `mm2s_ch_irq`, `s2mm_ch_irq`; `MM2S_ALL_IRQ_MASK` is `S2MM_ALL_IRQ_MASK`. -/
def chIrq (regs : McdmaRegs) (d : Direction) (ch : Ch) : Bool := decide ((regs (sr d ch) &&& 0xe0) &&& (regs (cr d ch) &&& 0xe0) ≠ 0)

/-- The channels that there are. -/
def channels (n : Fin 17) : List Ch := (List.finRange 16).filter fun ch => decide (ch.val < n)

/-- The loop of `update_irqs`, for one direction. -/
def updateIntr (regs : McdmaRegs) (d : Direction) (chs : List Ch) : BitVec 32 :=
  chs.foldl (fun v ch => v &&& ~~~(1#32 <<< ch.val) ||| (BitVec.ofBool (chIrq regs d ch)).setWidth 32 <<< ch.val) (regs (intrStatus d))

/-- `update_irqs`, up to the writes of the interrupts. -/
def updateIrqs (n : Fin 17) (regs : McdmaRegs) : McdmaRegs := fun k =>
  if k = intrStatus .mm2s then updateIntr regs .mm2s (channels n)
  else if k = intrStatus .s2mm then updateIntr regs .s2mm (channels n)
  else regs k

/-! ### The run -/

/-- `xilinx_mcdma`. -/
structure Engine where
  regs : McdmaRegs
  /-- `ev_update_irqs` is notified. -/
  pending : Bool := false
  /-- `mm2s_irq`, `s2mm_irq`. -/
  irq : Direction → Bool := fun _ => false
  since : Direction → Ch → ℕ := fun _ _ => 0

/-- What happens to it. -/
inductive Event where
  | reset
  | access (tr : Trans)
  /-- A descriptor of a channel is done; on the receive side it is always a packet. -/
  | done (d : Direction) (ch : Ch) (next : Addr) (eof : Bool)
  /-- A descriptor is done already, and the channel is idle. -/
  | runOut (d : Direction) (ch : Ch)
  | update

namespace Engine

variable (n : Fin 17) (s : Engine)

/-- The packets since the threshold counter was loaded, when a descriptor is done. -/
def count (d : Direction) (ch : Ch) (eof : Bool) : ℕ := s.since d ch + if eof = true then 1 else 0

def step : Event → Option Engine
  | .reset => some { s with regs := reginfo.regResetAll s.regs, since := fun _ _ => 0 }
  | .access tr => some { s with regs := (bTransport s.regs tr).1, pending := true }
  | .done d ch next eof =>
    if ch.val < n ∧ (d = .s2mm → eof = true) then
      -- the counter is loaded whatever the count is
      some { s with regs := descDone s.regs d ch next, pending := true, since := Function.update s.since d (Function.update (s.since d) ch 0) }
    else none
  | .runOut d ch => if ch.val < n then some { s with regs := setChannel s.regs d ch ((channel s.regs d ch).setIdle d.idleShift true) } else none
  | .update =>
    if s.pending = true then
      let regs := updateIrqs n s.regs
      some { s with regs := regs, pending := false, irq := fun d => decide (regs (intrStatus d) ≠ 0) }
    else none

/-- Behind the first reset. -/
def start (regs : McdmaRegs) : Engine := { regs := reginfo.regResetAll regs }

/-! ### What the interrupts are to be -/

/-- An access writes a register. -/
def Writes (tr : Trans) (k : Fin rMax) : Prop := tr.isRead = false ∧ tr.data.length = 4 ∧ tr.address = addrOf k

instance (tr : Trans) (k : Fin rMax) : Decidable (Writes tr k) := inferInstanceAs (Decidable (_ ∧ _ ∧ _))

/-- The IOC bit that is written. -/
def iocBit (tr : Trans) : Bool := (leWord 4 tr.data).getLsbD 5

/-- What the IOC bit is to be after a step. -/
def iocSpec (d : Direction) (ch : Ch) : Event → Bool
  | .reset => false
  | .access tr => if Writes tr (sr d ch) then ioc s.regs d ch && !iocBit tr else ioc s.regs d ch
  | .done d' ch' _ eof =>
    if d' = d ∧ ch' = ch then ioc s.regs d ch || (eof && decide ((irqThreshold (s.regs (cr d ch))).toNat ≤ s.count d ch eof)) else ioc s.regs d ch
  | .runOut _ _ | .update => ioc s.regs d ch

/-- The interrupts are those of the channels, unless they are to be updated. -/
def Settled : Prop := s.pending = false → ∀ d, s.irq d = true ↔ ∃ ch : Ch, ch.val < n ∧ chIrq s.regs d ch = true

/-- What a step is to do. -/
def Lawful (e : Event) : Prop :=
  ∀ s', s.step n e = some s' → (∀ d (ch : Ch), ch.val < n → ioc s'.regs d ch = s.iocSpec d ch e) ∧ s'.Settled n

/-- What is asked of a step. -/
def Asked : Event → Prop
  | .reset => s.pending = true ∨ ∀ d, s.irq d = false
  | .access tr => ∀ d (ch : Ch), ch.val < n → Writes tr (sr d ch) →
      if ch = 0 then ioc s.regs d ch = true → iocBit tr = true else ioc s.regs d ch = false ∧ iocBit tr = false
  | .done d ch _ eof => ioc s.regs d ch = true ∨ eof = true ∧ (irqThreshold (s.regs (cr d ch))).toNat ≤ 1
  | .runOut _ _ => True
  | .update => (∀ i, n.val ≤ i → (s.regs (intrStatus .s2mm)).getLsbD i = false) ∨ ∃ ch : Ch, ch.val < n ∧ chIrq s.regs .s2mm ch = true

/-- The same, of the steps that there are. -/
def Harmless (e : Event) : Prop := (∃ s', s.step n e = some s') → s.Asked n e

/-- The counter is at its start, `MM2S_INTR_STATUS` has bits of channels only, and the interrupts are as they are to be. -/
structure Inv : Prop where
  settled : s.Settled n
  since : ∀ d ch, s.since d ch = 0
  intr : ∀ i, n.val ≤ i → (s.regs (intrStatus .mm2s)).getLsbD i = false

end Engine

/-! ### What the accesses and the engine do to the registers -/

variable {regs : McdmaRegs} {d d' : Direction} {ch ch' : Ch}

theorem setChannel_of_ne {k : Fin rMax} (r : ChannelRegs) (h : ∀ j, k ≠ chReg d ch j) : setChannel regs d ch r k = regs k := by
  simp only [setChannel, sr, h, if_false]

@[simp] theorem setChannel_cr (r : ChannelRegs) : setChannel regs d ch r (cr d' ch') = regs (cr d' ch') := by
  simp [setChannel, cr, sr, chReg_inj]

@[simp] theorem setChannel_intrStatus (r : ChannelRegs) : setChannel regs d ch r (intrStatus d') = regs (intrStatus d') :=
  setChannel_of_ne r fun _ => intrStatus_ne_chReg

theorem setChannel_sr (r : ChannelRegs) : setChannel regs d ch r (sr d' ch') = if d' = d ∧ ch' = ch then r.sr else regs (sr d' ch') := by
  simp [setChannel, sr, chReg_inj]

/-- The idle bit is none of those of the interrupts. -/
theorem setIdle_sr (r : ChannelRegs) (d : Direction) (b : Bool) {i : ℕ} (hi : 5 ≤ i) :
    (r.setIdle d.idleShift b).sr.getLsbD i = r.sr.getLsbD i := by
  have hshift : d.idleShift ≤ 1 := by cases d <;> decide
  have hb : (BitVec.ofBool b).getLsbD (i - d.idleShift) = false := BitVec.getLsbD_of_ge _ _ (by omega)
  have hone : i - d.idleShift ≠ 0 := by omega
  by_cases hlt : i < 32
  · simp [ChannelRegs.setIdle, hb, hone, hlt]
  · rw [BitVec.getLsbD_of_ge _ _ (by omega), BitVec.getLsbD_of_ge _ _ (by omega)]

/-- The masks look at bits behind the idle bits. -/
theorem and_mask_congr {x y : BitVec 32} (h : ∀ i, 5 ≤ i → x.getLsbD i = y.getLsbD i) : x &&& 0xe0 = y &&& 0xe0 := by
  apply BitVec.eq_of_getLsbD_eq
  intro i hi
  by_cases h5 : 5 ≤ i
  · rw [BitVec.getLsbD_and, BitVec.getLsbD_and, h i h5]
  · have hmask : ∀ i < 5, (0xe0 : BitVec 32).getLsbD i = false := by decide
    rw [BitVec.getLsbD_and, BitVec.getLsbD_and, hmask i (by omega), Bool.and_false, Bool.and_false]

theorem ioc_setIdle (b : Bool) : ioc (setChannel regs d ch ((channel regs d ch).setIdle d.idleShift b)) d' ch' = ioc regs d' ch' := by
  rw [ioc, setChannel_sr]
  split
  · rename_i h
    obtain ⟨rfl, rfl⟩ := h
    exact setIdle_sr _ _ _ le_rfl
  · rfl

theorem chIrq_setIdle (b : Bool) : chIrq (setChannel regs d ch ((channel regs d ch).setIdle d.idleShift b)) d' ch' = chIrq regs d' ch' := by
  have hsr : setChannel regs d ch ((channel regs d ch).setIdle d.idleShift b) (sr d' ch') &&& 0xe0 = regs (sr d' ch') &&& 0xe0 := by
    rw [setChannel_sr]
    split
    · rename_i h
      obtain ⟨rfl, rfl⟩ := h
      exact and_mask_congr fun i hi => setIdle_sr _ _ _ hi
    · rfl
  rw [chIrq, chIrq, setChannel_cr, hsr]

theorem ioc_raiseIrq (r : ChannelRegs) : r.raiseIrq.sr.getLsbD 5 = true := by simp [ChannelRegs.raiseIrq, regDeposit]

/-- A descriptor sets the IOC bit of its channel. -/
theorem ioc_descDone (next : Addr) : ioc (descDone regs d ch next) d' ch' = if d' = d ∧ ch' = ch then true else ioc regs d' ch' := by
  rw [ioc, descDone, setChannel_sr]
  split
  · exact ioc_raiseIrq _
  · rfl

/-- The bit is what is written, and of the first channels it is clear. -/
theorem ioc_regBTransport (tr : Trans) :
    ioc (reginfo.regBTransport regs tr).1 d ch =
      if Engine.Writes tr (sr d ch) then Engine.iocBit tr && !decide (ch = 0) else ioc regs d ch := by
  split
  · rename_i hw
    obtain ⟨hread, hlen, haddr⟩ := hw
    obtain ⟨e, hl, hro, hw1c⟩ := lookup_sr d ch
    rw [ioc, Table.regBTransport_of_lookup hlen (haddr ▸ hl), hread, if_neg Bool.false_ne_true, Table.getLsbD_written e _ _ (by decide), hro,
      hw1c, Engine.iocBit]
    split <;> simp [*]
  · rename_i hw
    by_cases h : tr.data.length = 4 ∧ ∃ e, reginfo.lookup tr.address = some (e, sr d ch)
    · obtain ⟨hlen, e, hl⟩ := h
      have hread : tr.isRead = true := by
        by_contra hread
        exact hw ⟨by simpa using hread, hlen, addr_of_lookup hl⟩
      rw [ioc, Table.regBTransport_of_lookup hlen hl, if_pos hread, cor_eq_zero e (Table.lookup_eq_some hl).1, ioc]
      simp
    · rw [ioc, Table.regBTransport_of_ne fun hlen e hl => h ⟨hlen, e, hl⟩, ioc]

theorem ioc_bTransport (tr : Trans) :
    ioc (bTransport regs tr).1 d ch = if Engine.Writes tr (sr d ch) then Engine.iocBit tr && !decide (ch = 0) else ioc regs d ch := by
  rw [← ioc_regBTransport, bTransport]
  dsimp only
  split
  · exact ioc_setIdle false
  · rfl

theorem written_of_ro {e : Info 4} (hro : e.ro = 0xffffffff) (hw1c : e.w1c = 0) (reg val : BitVec 32) : Table.written e reg val = reg := by
  apply BitVec.eq_of_getLsbD_eq
  intro i hi
  have hone : (0xffffffff : BitVec 32).getLsbD i = true := by
    revert i
    decide
  rw [Table.getLsbD_written e _ _ hi, hro, hw1c, hone]
  simp

theorem intrStatus_bTransport (tr : Trans) : (bTransport regs tr).1 (intrStatus .mm2s) = regs (intrStatus .mm2s) := by
  have h : (reginfo.regBTransport regs tr).1 (intrStatus .mm2s) = regs (intrStatus .mm2s) := by
    by_cases h : tr.data.length = 4 ∧ ∃ e, reginfo.lookup tr.address = some (e, intrStatus .mm2s)
    · obtain ⟨hlen, e, hl⟩ := h
      obtain ⟨hro, hw1c⟩ := lookup_intrStatus hl
      rw [Table.regBTransport_of_lookup hlen hl, cor_eq_zero e (Table.lookup_eq_some hl).1, written_of_ro hro hw1c]
      split
      · exact Table.and_not_eq_self.2 BitVec.and_zero
      · rfl
    · exact Table.regBTransport_of_ne fun hlen e hl => h ⟨hlen, e, hl⟩
  rw [bTransport]
  dsimp only
  split
  · rw [setChannel_intrStatus, h]
  · exact h

/-- A bit of the loop of `update_irqs`. -/
theorem getLsbD_setBit (v : BitVec 32) (b : Bool) (c : ℕ) {i : ℕ} (hi : i < 32) :
    (v &&& ~~~(1#32 <<< c) ||| (BitVec.ofBool b).setWidth 32 <<< c).getLsbD i = if c = i then b else v.getLsbD i := by
  rw [BitVec.getLsbD_or, Table.getLsbD_and_not (n := 4) _ _ hi, BitVec.getLsbD_shiftLeft, BitVec.getLsbD_shiftLeft, BitVec.getLsbD_one]
  rcases Nat.lt_trichotomy i c with hlt | rfl | hlt
  · rw [if_neg (by omega)]
    simp [hlt]
  · rw [if_pos rfl]
    simp [hi]
  · rw [if_neg (by omega), BitVec.getLsbD_setWidth, BitVec.getLsbD_of_ge (BitVec.ofBool b) (i - c) (by omega)]
    simp [show i - c ≠ 0 by omega]

/-- The loop writes the bits of the channels. -/
theorem getLsbD_foldl (f : Ch → Bool) (chs : List Ch) (v : BitVec 32) {i : ℕ} (hi : i < 32) :
    (chs.foldl (fun v ch => v &&& ~~~(1#32 <<< ch.val) ||| (BitVec.ofBool (f ch)).setWidth 32 <<< ch.val) v).getLsbD i = true ↔
      (∃ ch ∈ chs, ch.val = i ∧ f ch = true) ∨ (∀ ch ∈ chs, ch.val ≠ i) ∧ v.getLsbD i = true := by
  induction chs generalizing v with
  | nil => simp
  | cons c chs ih =>
    rw [List.foldl_cons, ih, getLsbD_setBit _ _ _ hi]
    by_cases hc : c.val = i
    · -- a later one of the same channel writes the same
      have hsame : ∀ ch : Ch, ch.val = i → f ch = f c := fun ch hch => congrArg f (Fin.ext (hch.trans hc.symm))
      simp only [hc, if_true, List.mem_cons, forall_eq_or_imp, exists_eq_or_imp, true_and, ne_eq, not_true_eq_false, false_and, or_false]
      constructor
      · rintro (⟨ch, -, hi, hf⟩ | ⟨-, hf⟩)
        · exact .inl (hsame ch hi ▸ hf)
        · exact .inl hf
      · rintro (hf | ⟨ch, hmem, hi, hf⟩)
        · by_cases hlater : ∃ ch ∈ chs, ch.val = i
          · obtain ⟨ch, hmem, hi⟩ := hlater
            exact .inl ⟨ch, hmem, hi, (hsame ch hi).trans hf⟩
          · exact .inr ⟨fun ch hmem hi => hlater ⟨ch, hmem, hi⟩, hf⟩
        · exact .inl ⟨ch, hmem, hi, hf⟩
    · simp [hc]

theorem mem_channels {n : Fin 17} : ch ∈ channels n ↔ ch.val < n := by simp [channels]

/-- The bits of `update_irqs`. -/
theorem getLsbD_updateIntr (n : Fin 17) {i : ℕ} (hi : i < 32) :
    (updateIntr regs d (channels n)).getLsbD i = true ↔
      (∃ ch : Ch, ch.val < n ∧ ch.val = i ∧ chIrq regs d ch = true) ∨ n.val ≤ i ∧ (regs (intrStatus d)).getLsbD i = true := by
  rw [updateIntr, getLsbD_foldl _ _ _ hi]
  simp only [mem_channels]
  refine or_congr_right (and_congr_left' ⟨fun h => ?_, fun h ch hch => by omega⟩)
  by_contra hlt
  exact h ⟨i, by omega⟩ (by change i < n.val; omega) rfl

/-- It is not zero if there is a channel with an interrupt, or one of the other bits. -/
theorem updateIntr_ne_zero (n : Fin 17) :
    updateIntr regs d (channels n) ≠ 0 ↔
      (∃ ch : Ch, ch.val < n ∧ chIrq regs d ch = true) ∨ ∃ i, n.val ≤ i ∧ (regs (intrStatus d)).getLsbD i = true := by
  constructor
  · intro hne
    obtain ⟨i, hi, hbit⟩ : ∃ i, i < 32 ∧ (updateIntr regs d (channels n)).getLsbD i = true := by
      by_contra hall
      refine hne (BitVec.eq_of_getLsbD_eq fun i hi => ?_)
      by_contra hbit
      exact hall ⟨i, hi, by simpa using hbit⟩
    rcases (getLsbD_updateIntr n hi).1 hbit with ⟨ch, hch, -, hirq⟩ | ⟨hn, hbit⟩
    · exact .inl ⟨ch, hch, hirq⟩
    · exact .inr ⟨i, hn, hbit⟩
  · rintro hex h0
    have hzero : ∀ i, (updateIntr regs d (channels n)).getLsbD i = false := fun i => by rw [h0]; exact BitVec.getLsbD_zero
    rcases hex with ⟨ch, hch, hirq⟩ | ⟨i, hn, hbit⟩
    · have hlt : ch.val < 32 := by
        have := ch.isLt
        omega
      have hbit : (updateIntr regs d (channels n)).getLsbD ch.val = true := (getLsbD_updateIntr n hlt).2 (.inl ⟨ch, hch, rfl, hirq⟩)
      rw [hzero] at hbit
      cases hbit
    · have hi : i < 32 := BitVec.lt_of_getLsbD hbit
      have hset : (updateIntr regs d (channels n)).getLsbD i = true := (getLsbD_updateIntr n hi).2 (.inr ⟨hn, hbit⟩)
      rw [hzero] at hset
      cases hset

theorem updateIrqs_of_ne {n : Fin 17} {k : Fin rMax} (h : ∀ d, k ≠ intrStatus d) : updateIrqs n regs k = regs k := by
  simp only [updateIrqs, h, if_false]

@[simp] theorem updateIrqs_intrStatus (n : Fin 17) : updateIrqs n regs (intrStatus d) = updateIntr regs d (channels n) := by
  cases d <;> simp [updateIrqs]

@[simp] theorem updateIrqs_chReg (n : Fin 17) (j : Fin 8) : updateIrqs n regs (chReg d ch j) = regs (chReg d ch j) :=
  updateIrqs_of_ne fun _ => intrStatus_ne_chReg.symm

@[simp] theorem ioc_updateIrqs (n : Fin 17) : ioc (updateIrqs n regs) d ch = ioc regs d ch := by simp only [ioc, sr, updateIrqs_chReg]

@[simp] theorem chIrq_updateIrqs (n : Fin 17) : chIrq (updateIrqs n regs) d ch = chIrq regs d ch := by
  unfold chIrq sr cr
  rw [updateIrqs_chReg, updateIrqs_chReg]

@[simp] theorem ioc_regResetAll : ioc (reginfo.regResetAll regs) d ch = false := by
  rw [ioc, reset_sr]
  split <;> rfl

@[simp] theorem chIrq_regResetAll : chIrq (reginfo.regResetAll regs) d ch = false := by simp [chIrq, reset_cr]

/-! ### Steps -/

namespace Engine

variable {n : Fin 17} {s s' : Engine} {e : Event}

theorem settled_of_pending (h : s.pending = true) : s.Settled n := fun hp => by
  rw [h] at hp
  cases hp

theorem harmless_iff_of_step (hs : s.step n e = some s') : s.Harmless n e ↔ s.Asked n e := ⟨fun h => h ⟨s', hs⟩, fun h _ => h⟩

/-- A reset, with which nothing is updated. -/
theorem lawful_reset_iff : s.Lawful n .reset ↔ s.Asked n .reset := by
  simp only [Lawful, step, Option.some.injEq, forall_eq', iocSpec, ioc_regResetAll, implies_true, true_and, Settled, chIrq_regResetAll,
    Bool.false_eq_true, and_false, exists_false, iff_false, Bool.not_eq_true, Asked]
  cases s.pending <;> simp

theorem lawful_access_iff (tr : Trans) : s.Lawful n (.access tr) ↔ s.Asked n (.access tr) := by
  simp only [Lawful, step, Option.some.injEq, forall_eq', Asked]
  rw [and_iff_left (settled_of_pending rfl)]
  refine forall_congr' fun d => forall_congr' fun ch => imp_congr_right fun _ => ?_
  rw [ioc_bTransport, iocSpec]
  by_cases hw : Writes tr (sr d ch)
  · rw [if_pos hw, if_pos hw, forall_prop_of_true hw]
    by_cases hch : ch = 0
    · simp only [hch, decide_true, Bool.not_true, Bool.and_false, if_true]
      cases ioc s.regs d 0 <;> cases iocBit tr <;> simp
    · simp only [hch, decide_false, Bool.not_false, Bool.and_true, if_false]
      cases ioc s.regs d ch <;> cases iocBit tr <;> simp
  · rw [if_neg hw, if_neg hw]
    exact iff_of_true rfl fun h => absurd h hw

theorem lawful_done_iff (hi : s.Inv n) (d : Direction) (ch : Ch) (next : Addr) (eof : Bool) :
    s.Lawful n (.done d ch next eof) ↔ s.Harmless n (.done d ch next eof) := by
  by_cases hen : ch.val < n ∧ (d = .s2mm → eof = true)
  · have hcount : s.count d ch eof ≤ 1 := by
      rw [count, hi.since]
      split <;> omega
    simp only [Lawful, Harmless, step, if_pos hen, Option.some.injEq, forall_eq', exists_eq', forall_const, Asked]
    rw [and_iff_left (settled_of_pending rfl)]
    constructor
    · intro h
      have hioc := h d ch hen.1
      rw [ioc_descDone, if_pos ⟨rfl, rfl⟩, iocSpec, if_pos ⟨rfl, rfl⟩, eq_comm, Bool.or_eq_true, Bool.and_eq_true, decide_eq_true_eq] at hioc
      exact hioc.imp_right fun ⟨heof, hle⟩ => ⟨heof, hle.trans hcount⟩
    · intro h d' ch' _
      rw [ioc_descDone, iocSpec]
      by_cases hsame : d' = d ∧ ch' = ch
      · obtain ⟨rfl, rfl⟩ := hsame
        rw [if_pos ⟨rfl, rfl⟩, if_pos ⟨rfl, rfl⟩, eq_comm, Bool.or_eq_true, Bool.and_eq_true, decide_eq_true_eq]
        refine h.imp_right fun ⟨heof, hle⟩ => ⟨heof, ?_⟩
        rw [count, hi.since, if_pos heof]
        exact hle
      · rw [if_neg hsame, if_neg fun h => hsame ⟨h.1.symm, h.2.symm⟩]
  · simp [Lawful, Harmless, step, hen]

theorem lawful_runOut (hi : s.Inv n) (d : Direction) (ch : Ch) : s.Lawful n (.runOut d ch) := by
  intro s' hs
  simp only [step] at hs
  split at hs
  · cases hs
    refine ⟨fun d' ch' _ => ioc_setIdle true, fun hp d' => ?_⟩
    simp only [chIrq_setIdle]
    exact hi.settled hp d'
  · cases hs

/-- `update_irqs`. -/
theorem lawful_update_iff (hi : s.Inv n) : s.Lawful n .update ↔ s.Harmless n .update := by
  have hne : ∀ d, updateIntr s.regs d (channels n) ≠ 0 ↔ _ := fun d => updateIntr_ne_zero n
  by_cases hp : s.pending = true
  · simp only [Lawful, Harmless, step, if_pos hp, Option.some.injEq, forall_eq', exists_eq', forall_const, Asked, ioc_updateIrqs, iocSpec,
      implies_true, true_and, Settled, chIrq_updateIrqs, decide_eq_true_eq, updateIrqs_intrStatus]
    constructor
    · intro h
      by_contra hno
      simp only [not_or, not_forall, Bool.not_eq_false] at hno
      obtain ⟨⟨i, hn, hbit⟩, hnone⟩ := hno
      exact hnone ((h .s2mm).1 ((hne .s2mm).2 (.inr ⟨i, hn, hbit⟩)))
    · intro h d
      refine (hne d).trans (or_iff_left_of_imp ?_)
      rintro ⟨i, hn, hbit⟩
      cases d with
      | mm2s =>
        rw [hi.intr i hn] at hbit
        cases hbit
      | s2mm =>
        rcases h with hzero | hex
        · rw [hzero i hn] at hbit
          cases hbit
        · exact hex
  · simp [Lawful, Harmless, step, hp]

theorem lawful_iff_harmless (hi : s.Inv n) : s.Lawful n e ↔ s.Harmless n e := by
  cases e with
  | reset => exact lawful_reset_iff.trans (harmless_iff_of_step rfl).symm
  | access tr => exact (lawful_access_iff tr).trans (harmless_iff_of_step rfl).symm
  | done d ch next eof => exact lawful_done_iff hi d ch next eof
  | runOut d ch => exact iff_of_true (lawful_runOut hi d ch) fun _ => trivial
  | update => exact lawful_update_iff hi

/-- The counter is loaded with every step that touches it. -/
theorem since_step (hi : ∀ d ch, s.since d ch = 0) (hs : s.step n e = some s') : ∀ d ch, s'.since d ch = 0 := by
  cases e with
  | reset =>
    cases hs
    exact fun _ _ => rfl
  | access tr =>
    cases hs
    exact hi
  | done d ch next eof =>
    obtain ⟨-, hs⟩ := Option.ite_none_right_eq_some.1 hs
    cases hs
    have hsince : s.since = fun _ _ => 0 := funext fun d => funext fun ch => hi d ch
    intro d' ch'
    dsimp only
    rw [hsince, Function.update_eq_self, Function.update_eq_self]
  | runOut d ch =>
    obtain ⟨-, hs⟩ := Option.ite_none_right_eq_some.1 hs
    cases hs
    exact hi
  | update =>
    obtain ⟨-, hs⟩ := Option.ite_none_right_eq_some.1 hs
    cases hs
    exact hi

/-- Software cannot write `MM2S_INTR_STATUS`. -/
theorem intr_step (hi : ∀ i, n.val ≤ i → (s.regs (intrStatus .mm2s)).getLsbD i = false) (hs : s.step n e = some s') :
    ∀ i, n.val ≤ i → (s'.regs (intrStatus .mm2s)).getLsbD i = false := by
  intro i hn
  cases e with
  | reset =>
    cases hs
    dsimp only
    rw [reset_intrStatus, Table.zero_getLsbD]
  | access tr =>
    cases hs
    dsimp only
    rw [intrStatus_bTransport]
    exact hi i hn
  | done d ch next eof =>
    obtain ⟨-, hs⟩ := Option.ite_none_right_eq_some.1 hs
    cases hs
    dsimp only [descDone]
    rw [setChannel_intrStatus]
    exact hi i hn
  | runOut d ch =>
    obtain ⟨-, hs⟩ := Option.ite_none_right_eq_some.1 hs
    cases hs
    dsimp only
    rw [setChannel_intrStatus]
    exact hi i hn
  | update =>
    obtain ⟨-, hs⟩ := Option.ite_none_right_eq_some.1 hs
    cases hs
    dsimp only
    rw [updateIrqs_intrStatus]
    by_contra hbit
    have hbit : (updateIntr s.regs .mm2s (channels n)).getLsbD i = true := by simpa using hbit
    rcases (getLsbD_updateIntr n (BitVec.lt_of_getLsbD hbit)).1 hbit with ⟨ch, hch, heq, -⟩ | ⟨-, hold⟩
    · omega
    · rw [hi i hn] at hold
      cases hold

theorem Inv.step (hi : s.Inv n) (hl : s.Lawful n e) (hs : s.step n e = some s') : s'.Inv n :=
  ⟨(hl s' hs).2, since_step hi.since hs, intr_step hi.intr hs⟩

theorem inv_start (regs : McdmaRegs) : (start regs).Inv n where
  settled := fun _ d => by simp [start]
  since := fun _ _ => rfl
  intr := fun i _ => by
    dsimp only [start]
    rw [reset_intrStatus, Table.zero_getLsbD]

/-! ### Runs -/

/-- **The interrupts of a run are as they are to be exactly if every step does no harm.** -/
theorem runOk_irqs_iff (n : Fin 17) (regs : McdmaRegs) (es : List Event) :
    RunOk (step n) (Lawful n) (start regs) es ↔ RunOk (step n) (Harmless n) (start regs) es :=
  runOk_congr_of_ok (I := Inv n) (fun hi hl hs => hi.step hl hs) (fun hi => lawful_iff_harmless hi) (inv_start regs)

/-- A threshold of two packets, and one packet. -/
theorem not_runOk_irqs :
    ¬RunOk (step 1) (Lawful 1) (start fun _ => 0)
      [.access { isRead := false, address := 0x40, data := leBytes 4 0x20001 }, .done .mm2s 0 0 true] := by
  rintro ⟨-, hrest⟩
  obtain ⟨hl, -⟩ := hrest _ rfl
  have hioc := (hl _ rfl).1 .mm2s 0 (by decide)
  revert hioc
  decide +kernel

end Engine

end LibSystemCTLM.Mcdma
