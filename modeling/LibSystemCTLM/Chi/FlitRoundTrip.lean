import LibSystemCTLM.Chi.Flit

/-!
# The round trip of a flit

Which packets come back from their flit as they were (`roundTrips_iff`). Responses and snoops do.
The mask that `Extract` cuts a field with is an `int`, so that a request comes back only if its
address and its reserved bits survive what a shift by so much has left of the mask; for a data
packet the same holds of its check bits, its reserved bits have to fit in eight, and the byte that
`SetData` sets too many needs a place behind the data.
-/

namespace LibSystemCTLM.Chi

open Foundation

/-! ### Masks -/

section Masks

variable {u : Overlong} {t n w : ℕ}

theorem getLsbD_shl_sub_one (hw : w < t) (i : ℕ) : (shl u t w - 1).getLsbD i = decide (i < w) := by
  have hpow : 2 ^ w < 2 ^ t := Nat.pow_lt_pow_right (by decide) hw
  have hpos : 0 < 2 ^ w := Nat.two_pow_pos w
  have hone : 1 < 2 ^ t := Nat.one_lt_two_pow (by omega)
  have hnat : (shl u t w - 1).toNat = 2 ^ w - 1 := by
    have h1 : (1#t).toNat = 1 := by rw [BitVec.toNat_ofNat, Nat.mod_eq_of_lt hone]
    have hshl : (shl u t w).toNat = 2 ^ w := by
      rw [shl, if_pos hw, BitVec.toNat_shiftLeft, h1, Nat.one_shiftLeft, Nat.mod_eq_of_lt hpow]
    have hsub : (shl u t w - 1).toNat = (2 ^ t - 1 + 2 ^ w) % 2 ^ t := by
      rw [BitVec.toNat_sub, hshl]
      exact congrArg (fun x => (2 ^ t - x + 2 ^ w) % 2 ^ t) h1
    rw [hsub, show 2 ^ t - 1 + 2 ^ w = 2 ^ w - 1 + 2 ^ t by omega, Nat.add_mod_right, Nat.mod_eq_of_lt (by omega)]
  rw [← BitVec.testBit_toNat, hnat, Nat.testBit_two_pow_sub_one]

theorem getLsbD_of_toNat_lt {v : BitVec t} (hv : v.toNat < 2 ^ w) {i : ℕ} (h : v.getLsbD i = true) : i < w := by
  by_contra hi
  rw [← BitVec.testBit_toNat, Nat.testBit_lt_two_pow (lt_of_lt_of_le hv (Nat.pow_le_pow_right (by decide) (Nat.not_lt.1 hi)))] at h
  cases h

/-- A value that fits goes through a mask that was computed as it should be. -/
theorem and_setMask {v : BitVec t} (hw : w < max t 32) (hv : v.toNat < 2 ^ w) : v &&& setMask u t w = v := by
  apply BitVec.eq_of_getLsbD_eq
  intro i hi
  rw [BitVec.getLsbD_and, setMask, BitVec.getLsbD_setWidth, getLsbD_shl_sub_one hw]
  cases hb : v.getLsbD i with
  | false => simp
  | true => simp [hi, getLsbD_of_toNat_lt hv hb]

theorem getLsbD_signExtend_mask (hn : n ≤ 64) (hw : w < n) {i : ℕ} (hi : i < 64) :
    ((shl u n w - 1).signExtend 64).getLsbD i = decide (i < w) := by
  rw [BitVec.getLsbD_signExtend, getLsbD_shl_sub_one hw]
  have hmsb : (shl u n w - 1).msb = false := by
    rw [BitVec.msb_eq_getLsbD_last, getLsbD_shl_sub_one hw]
    simp
    omega
  rw [hmsb]
  by_cases hin : i < n
  · simp [hi, hin]
  · simp [hin]
    omega

theorem and_signExtend_mask {v : BitVec 64} (hn : n ≤ 64) (hw : w < n) (hv : v.toNat < 2 ^ w) : v &&& (shl u n w - 1).signExtend 64 = v := by
  apply BitVec.eq_of_getLsbD_eq
  intro i hi
  rw [BitVec.getLsbD_and, getLsbD_signExtend_mask hn hw hi]
  cases hb : v.getLsbD i with
  | false => simp
  | true => simp [getLsbD_of_toNat_lt hv hb]

end Masks

/-! ### Fields -/

/-- What `Extract` makes of a value that was `Set`. -/
def carried (u : Overlong) {t : ℕ} (v : BitVec t) (w : ℕ) : BitVec t := ((v &&& setMask u t w).setWidth 64 &&& intMask u w).setWidth t

section Fields

variable {u : Overlong} {t w : ℕ} {v : BitVec t} {m : Bits}

theorem slice_set (ht : t ≤ 64) (hv : v.toNat < 2 ^ w) {pos : ℕ} (h : m.Holds pos [set u v w]) :
    Bits.slice 64 m pos w = (v &&& setMask u t w).setWidth 64 := by
  apply Bits.slice_of_bits
  · intro i hi
    rw [BitVec.getLsbD_setWidth]
    have hbit : m (pos + i) = (v &&& setMask u t w).getLsbD i := h.1 i hi
    rw [hbit]
    by_cases hlt : i < 64
    · simp [hlt]
    · rw [BitVec.getLsbD_of_ge _ i (by omega)]
      simp [hlt]
  · rw [BitVec.toNat_setWidth, BitVec.toNat_and]
    exact lt_of_le_of_lt (Nat.mod_le _ _) (lt_of_le_of_lt Nat.and_le_left hv)

theorem reads_extract (ht : t ≤ 64) (hv : v.toNat < 2 ^ w) : Reads (extract u m t w) m [set u v w] (carried u v w) := by
  intro pos h
  rw [extract, extractWith, slice_set ht hv h]
  rfl

theorem toNat_setWidth_lt (hv : v.toNat < 2 ^ w) : (v.setWidth 64).toNat < 2 ^ w := by
  rw [BitVec.toNat_setWidth]
  exact lt_of_le_of_lt (Nat.mod_le _ _) hv

/-- A field that is narrower than an `int` is carried. -/
theorem carried_eq (ht : t ≤ 64) (hw : w < 32) (hv : v.toNat < 2 ^ w) : carried u v w = v := by
  have hlt := toNat_setWidth_lt hv
  rw [carried, and_setMask (lt_of_lt_of_le hw (le_max_right ..)) hv, intMask, and_signExtend_mask (by decide) hw hlt,
    BitVec.setWidth_setWidth_of_le _ ht, BitVec.setWidth_eq]

theorem reads_small (ht : t ≤ 64) (hw : w < 32) (hv : v.toNat < 2 ^ w) : Reads (extract u m t w) m [set u v w] v := by
  have h := reads_extract (u := u) (m := m) ht hv
  rwa [carried_eq ht hw hv] at h

/-- A field that is extracted in another type than it was set in. -/
theorem reads_other {t' : ℕ} (ht : t ≤ 64) (hw : w < 32) (hv : v.toNat < 2 ^ w) :
    Reads (extract u m t' w) m [set u v w] (v.setWidth 64 |>.setWidth t') := by
  intro pos h
  have hlt := toNat_setWidth_lt hv
  rw [extract, extractWith, slice_set ht hv h, and_setMask (lt_of_lt_of_le hw (le_max_right ..)) hv, intMask,
    and_signExtend_mask (by decide) hw hlt]
  rfl

theorem reads_bool (b : Bool) : Reads (extractBool m) m [setBool b] b := by
  intro pos h
  have hbit : m (pos + 0) = b := h.1 0 Nat.one_pos
  rw [extractBool, ← hbit]
  rfl

/-- `Extract` of a snoop, whose mask has the type of the field. -/
theorem reads_typed {t' : ℕ} (ht : t ≤ 64) (ht' : t' ≤ 64) (hw : w < max t 32) (hw' : w < max t' 32) (hv : v.toNat < 2 ^ w) :
    Reads (SnpPkt.extract u m t' w) m [set u v w] (v.setWidth 64 |>.setWidth t') := by
  intro pos h
  have hlt := toNat_setWidth_lt hv
  rw [SnpPkt.extract, extractWith, slice_set ht hv h, and_setMask hw hv, typedMask, and_signExtend_mask (by omega) hw' hlt]
  rfl

end Fields

/-! ### The packets -/

/-- A packet of one of the four channels. -/
inductive Packet where
  | req (p : ReqPkt)
  | rsp (p : RspPkt)
  | snp (p : SnpPkt)
  | dat (p : DatPkt)

/-- The values are within the widths that are declared for them. -/
structure ReqPkt.Declared (c : Config) (p : ReqPkt) : Prop where
  qoS : p.qoS.toNat < 2 ^ 4
  tgtID : p.tgtID.toNat < 2 ^ c.nodeIdWidth
  srcID : p.srcID.toNat < 2 ^ c.nodeIdWidth
  returnNID_StashNID : p.returnNID_StashNID.toNat < 2 ^ c.nodeIdWidth
  opcode : p.opcode.toNat < 2 ^ 6
  /-- `Size` has a code for 1, 2, 4, 8, 16, 32 and 64 bytes. -/
  size : ∃ k ≤ 6, p.dataLength = 2 ^ k
  address : p.address.toNat < 2 ^ c.addrWidth
  order : p.order.toNat < 2 ^ 2
  pCrdType : p.pCrdType.toNat < 2 ^ 4
  lpid : p.lpid.toNat < 2 ^ 5
  rsvdc : p.rsvdc.toNat < 2 ^ c.rsvdcWidth

/-- The values are within the widths that are declared for them. -/
structure RspPkt.Declared (c : Config) (p : RspPkt) : Prop where
  qoS : p.qoS.toNat < 2 ^ 4
  tgtID : p.tgtID.toNat < 2 ^ c.nodeIdWidth
  srcID : p.srcID.toNat < 2 ^ c.nodeIdWidth
  opcode : p.opcode.toNat < 2 ^ 4
  respErr : p.respErr.toNat < 2 ^ 2
  resp : p.resp.toNat < 2 ^ 3
  fwdState_DataPull : p.fwdState_DataPull.toNat < 2 ^ 3
  pCrdType : p.pCrdType.toNat < 2 ^ 4

/-- The values are within the widths that are declared for them. -/
structure SnpPkt.Declared (c : Config) (p : SnpPkt) : Prop where
  qoS : p.qoS.toNat < 2 ^ 4
  srcID : p.srcID.toNat < 2 ^ c.nodeIdWidth
  fwdNID : p.fwdNID.toNat < 2 ^ c.nodeIdWidth
  opcode : p.opcode.toNat < 2 ^ 5
  /-- The flit has the address from bit 3 on. -/
  aligned : p.address.toNat % 8 = 0
  address : p.address.toNat < 2 ^ c.addrWidth

/-- The values are within the widths that are declared for them. -/
structure DatPkt.Declared (c : Config) (p : DatPkt) : Prop where
  qoS : p.qoS.toNat < 2 ^ 4
  tgtID : p.tgtID.toNat < 2 ^ c.nodeIdWidth
  srcID : p.srcID.toNat < 2 ^ c.nodeIdWidth
  homeNID : p.homeNID.toNat < 2 ^ c.nodeIdWidth
  opcode : p.opcode.toNat < 2 ^ c.datOpcodeWidth
  respErr : p.respErr.toNat < 2 ^ 2
  resp : p.resp.toNat < 2 ^ 3
  fwdState_DataPull_DataSource : p.fwdState_DataPull_DataSource.toNat < 2 ^ 3
  ccid : p.ccid.toNat < 2 ^ 2
  rsvdc : p.rsvdc.toNat < 2 ^ c.rsvdcWidth
  dataCheck : p.dataCheck.toNat < 2 ^ c.dataCheckWidth
  poison : p.poison.toNat < 2 ^ c.poisonWidth

/-- What the first flit of a data packet brings: all of its fields, the data and the byte enables of the first
chunk, and the number of the chunk. -/
structure DatPkt.Brought (c : Config) (p q : DatPkt) : Prop where
  fields : q = { p with dataID := 0, data := q.data, dataLength := c.dataBytes, byteEnable := q.byteEnable, byteEnableLength := c.dataBytes }
  data : ∀ i < min p.dataLength c.dataBytes, q.data i = p.data i
  enabled : ∀ i < min p.dataLength c.dataBytes, q.enabled i = p.enabled i

/-- The flit is as long as it is declared to be, and parsing it gives the packet back. -/
def RoundTrips (u : Overlong) (c : Config) : Packet → Prop
  | .req p => (p.createFlit u c).2 = ReqPkt.flitWidth c ∧ ReqPkt.parse u c (p.createFlit u c).1 0 = (p, ReqPkt.flitWidth c)
  | .rsp p => (p.createFlit u c).2 = RspPkt.flitWidth c ∧ RspPkt.parse u c (p.createFlit u c).1 0 = (p, RspPkt.flitWidth c)
  | .snp p => (p.createFlit u c).2 = SnpPkt.flitWidth c ∧ SnpPkt.parse u c (p.createFlit u c).1 0 = (p, SnpPkt.flitWidth c)
  | .dat p => ∃ flit s q, p.createFlit u c {} = .ok (flit, s) ∧ s.pos = DatPkt.flitWidth c ∧
      DatPkt.parse u c flit 0 = (q, DatPkt.flitWidth c) ∧ p.Brought c q

/-- The values are within the widths that are declared for them. -/
def Declared (c : Config) : Packet → Prop
  | .req p => p.Declared c
  | .rsp p => p.Declared c
  | .snp p => p.Declared c
  | .dat p => p.Declared c

/-- What survives the masks: the address and the reserved bits of a request, the check bits and the reserved
bits of a data packet, the latter cut to eight bits. The byte that `SetData` sets too many falls on the lanes of the
data, or on the fields behind it. -/
def Carried (u : Overlong) (c : Config) : Packet → Prop
  | .req p => carried u p.address c.addrWidth = p.address ∧ carried u p.rsvdc c.rsvdcWidth = p.rsvdc
  | .rsp _ => True
  | .snp _ => True
  | .dat p => ((carried u p.rsvdc c.rsvdcWidth).setWidth 8).setWidth 32 = p.rsvdc ∧ carried u p.dataCheck c.dataCheckWidth = p.dataCheck ∧
      (p.dataLength < c.dataBytes ∨ 8 ≤ c.dataCheckWidth + c.poisonWidth)

section Packets

variable {u : Overlong} {c : Config} {m : Bits}

@[simp] theorem width_set {t : ℕ} (v : BitVec t) (w : ℕ) : (set u v w).width = w := rfl

@[simp] theorem width_setBool (b : Bool) : (setBool b).width = 1 := rfl

@[simp] theorem total_setIf (s : Slot) : Bits.total (setIf s.width s) = s.width := by
  unfold setIf
  split <;> simp [*]

theorem total_setIf_set {t : ℕ} (v : BitVec t) (w : ℕ) : Bits.total (setIf w (set u v w)) = w := total_setIf (set u v w)

theorem total_slots_req (p : ReqPkt) : Bits.total (p.slots u c) = ReqPkt.flitWidth c := by
  rw [ReqPkt.slots, Bits.total_append, total_setIf_set]
  simp only [Bits.total_cons, Bits.total_nil, width_set, width_setBool, ReqPkt.flitWidth]
  omega

theorem ReqPkt.memAttr_bits (p : ReqPkt) : p.getMemAttr.toNat < 2 ^ 4 ∧ p.getMemAttr.getLsbD 3 = p.allocate ∧
    p.getMemAttr.getLsbD 2 = p.cacheable ∧ p.getMemAttr.getLsbD 1 = p.deviceMemory ∧ p.getMemAttr.getLsbD 0 = p.earlyWrAck := by
  unfold getMemAttr
  cases p.allocate <;> cases p.cacheable <;> cases p.deviceMemory <;> cases p.earlyWrAck <;> decide

theorem ReqPkt.getSize_lt (p : ReqPkt) : p.getSize.toNat < 2 ^ 3 := by
  unfold getSize
  split <;> decide

/-- `GetSize` gives the code of the length. -/
theorem ReqPkt.two_pow_getSize {p : ReqPkt} (h : ∃ k ≤ 6, p.dataLength = 2 ^ k) : 2 ^ p.getSize.toNat = p.dataLength := by
  obtain ⟨k, hk, hlen⟩ := h
  rw [getSize, hlen]
  have hcases : k = 0 ∨ k = 1 ∨ k = 2 ∨ k = 3 ∨ k = 4 ∨ k = 5 ∨ k = 6 := by omega
  rcases hcases with rfl | rfl | rfl | rfl | rfl | rfl | rfl <;> rfl

/-- A field that may be absent, and may be extracted in a smaller type. -/
theorem reads_extractIf {t t' w : ℕ} {v : BitVec t} (ht : t ≤ 64) (ht' : t' ≤ t) (hv : v.toNat < 2 ^ w) :
    Reads (extractIf w (extract u m t' w)) m (setIf w (set u v w)) ((carried u v w).setWidth t') := by
  unfold extractIf setIf
  by_cases hz : w = 0
  · rw [if_pos hz, if_pos hz]
    have h0 : v = 0 := by
      apply BitVec.eq_of_toNat_eq
      rw [hz] at hv
      simpa using hv
    have hc : (carried u v w).setWidth t' = 0 := by simp [carried, h0]
    rw [hc]
    exact Reads.pure 0
  · rw [if_neg hz, if_neg hz]
    intro pos h
    rw [extract, extractWith, slice_set ht hv h, carried, BitVec.setWidth_setWidth_of_le _ ht']
    rfl

theorem reads_wideIf {t w : ℕ} {v : BitVec t} (ht : t ≤ 64) (hv : v.toNat < 2 ^ w) :
    Reads (extractIf w (extract u m t w)) m (setIf w (set u v w)) (carried u v w) := by
  have h := reads_extractIf (u := u) (m := m) ht le_rfl hv
  rwa [BitVec.setWidth_eq] at h

/-- A request is parsed to itself, but for what the masks cut off. -/
theorem ReqPkt.reads_parse {p : ReqPkt} (h : p.Declared c) : Reads (ReqPkt.parse u c m) m (p.slots u c)
    { p with address := carried u p.address c.addrWidth, rsvdc := carried u p.rsvdc c.rsvdcWidth } := by
  have hid : c.nodeIdWidth < 32 := lt_of_le_of_lt c.nodeIdWidth_le (by decide)
  obtain ⟨hmem, h3, h2, h1, h0⟩ := p.memAttr_bits
  unfold parse slots
  refine .cons (reads_small (by decide) (by decide) h.qoS) ?_
  refine .cons (reads_small (by decide) hid h.tgtID) ?_
  refine .cons (reads_small (by decide) hid h.srcID) ?_
  refine .cons (reads_small (by decide) (by decide) p.txnID.isLt) ?_
  refine .cons (reads_small (by decide) hid h.returnNID_StashNID) ?_
  refine .cons (reads_bool _) ?_
  refine .cons (reads_small (by decide) (by decide) p.returnTxnID.isLt) ?_
  refine .cons (reads_small (by decide) (by decide) h.opcode) ?_
  refine .cons (reads_small (by decide) (by decide) p.getSize_lt) ?_
  refine .cons (reads_extract (by decide) h.address) ?_
  refine .cons (reads_bool _) ?_
  refine .cons (reads_bool _) ?_
  refine .cons (reads_bool _) ?_
  refine .cons (reads_small (by decide) (by decide) h.order) ?_
  refine .cons (reads_small (by decide) (by decide) h.pCrdType) ?_
  refine .cons (reads_small (by decide) (by decide) hmem) ?_
  refine .cons (reads_bool _) ?_
  refine .cons (reads_other (by decide) (by decide) h.lpid) ?_
  refine .cons (reads_bool _) ?_
  refine .cons (reads_bool _) ?_
  refine .cons (reads_bool _) ?_
  refine .last (reads_wideIf (by decide) h.rsvdc) ?_
  have hlpid : ((p.lpid.setWidth 64).setWidth 16).setWidth 8 = p.lpid := by
    rw [BitVec.setWidth_setWidth_of_le _ (by decide), BitVec.setWidth_setWidth_of_le _ (by decide), BitVec.setWidth_eq]
  rw [two_pow_getSize h.size, h3, h2, h1, h0, Bool.not_not, hlpid]

theorem total_slots_rsp (p : RspPkt) : Bits.total (p.slots u c) = RspPkt.flitWidth c := by
  simp only [RspPkt.slots, Bits.total_cons, Bits.total_nil, width_set, width_setBool, RspPkt.flitWidth]
  omega

theorem RspPkt.reads_parse {p : RspPkt} (h : p.Declared c) : Reads (RspPkt.parse u c m) m (p.slots u c) p := by
  have hid : c.nodeIdWidth < 32 := lt_of_le_of_lt c.nodeIdWidth_le (by decide)
  unfold parse slots
  refine .cons (reads_small (by decide) (by decide) h.qoS) ?_
  refine .cons (reads_small (by decide) hid h.tgtID) ?_
  refine .cons (reads_small (by decide) hid h.srcID) ?_
  refine .cons (reads_small (by decide) (by decide) p.txnID.isLt) ?_
  refine .cons (reads_small (by decide) (by decide) h.opcode) ?_
  refine .cons (reads_small (by decide) (by decide) h.respErr) ?_
  refine .cons (reads_small (by decide) (by decide) h.resp) ?_
  refine .cons (reads_small (by decide) (by decide) h.fwdState_DataPull) ?_
  refine .cons (reads_small (by decide) (by decide) p.dbid.isLt) ?_
  refine .cons (reads_small (by decide) (by decide) h.pCrdType) ?_
  exact .last (reads_bool _) rfl

theorem total_slots_snp (p : SnpPkt) : Bits.total (p.slots u c) = SnpPkt.flitWidth c := by
  simp only [SnpPkt.slots, Bits.total_cons, Bits.total_nil, width_set, width_setBool, SnpPkt.flitWidth]
  omega

theorem setWidth_back {v t : ℕ} (x : BitVec v) (hv : v ≤ 64) (ht : v ≤ t) : ((x.setWidth 64).setWidth t).setWidth v = x := by
  rw [BitVec.setWidth_setWidth_of_le _ ht, BitVec.setWidth_setWidth_of_le _ hv, BitVec.setWidth_eq]

theorem reads_typed_same {t w : ℕ} {v : BitVec t} (ht : t ≤ 64) (hw : w < max t 32) (hv : v.toNat < 2 ^ w) :
    Reads (SnpPkt.extract u m t w) m [set u v w] v := by
  have h := reads_typed (u := u) (m := m) ht ht hw hw hv
  rwa [BitVec.setWidth_setWidth_of_le _ ht, BitVec.setWidth_eq] at h

/-- An address without its low bits comes back when they are clear. -/
theorem shiftRight_shiftLeft {x : BitVec 64} (h : x.toNat % 8 = 0) : x >>> 3 <<< 3 = x := by
  apply BitVec.eq_of_toNat_eq
  rw [BitVec.toNat_shiftLeft, BitVec.toNat_ushiftRight, Nat.shiftRight_eq_div_pow, Nat.shiftLeft_eq]
  omega

theorem SnpPkt.Declared.shifted {p : SnpPkt} (h : p.Declared c) : (p.address >>> 3).toNat < 2 ^ (c.addrWidth - 3) := by
  have hge := c.addrWidth_ge
  have hpow : 2 ^ c.addrWidth = 2 ^ (c.addrWidth - 3) * 8 := by
    rw [show (8 : ℕ) = 2 ^ 3 from rfl, ← Nat.pow_add]
    congr 1
    omega
  have hlt := h.address
  rw [BitVec.toNat_ushiftRight, Nat.shiftRight_eq_div_pow]
  omega

theorem SnpPkt.reads_parse {p : SnpPkt} (h : p.Declared c) : Reads (SnpPkt.parse u c m) m (p.slots u c) p := by
  have hid : c.nodeIdWidth < max 16 32 := lt_of_le_of_lt c.nodeIdWidth_le (by decide)
  have haw := c.addrWidth_le
  unfold parse slots
  refine .cons (reads_typed_same (by decide) (by decide) h.qoS) ?_
  refine .cons (reads_typed_same (by decide) hid h.srcID) ?_
  refine .cons (reads_typed_same (by decide) (by decide) p.txnID.isLt) ?_
  refine .cons (reads_typed_same (by decide) hid h.fwdNID) ?_
  refine .cons (reads_typed (by decide) (by decide) (by decide) (by decide) p.fwdTxnID.isLt) ?_
  refine .cons (reads_typed_same (by decide) (by decide) h.opcode) ?_
  refine .cons (reads_typed_same (by decide) (by omega) h.shifted) ?_
  refine .cons (reads_bool _) ?_
  refine .cons (reads_bool _) ?_
  refine .cons (reads_bool _) ?_
  refine .last (reads_bool _) ?_
  rw [setWidth_back p.fwdTxnID (by decide) (by decide), shiftRight_shiftLeft h.aligned, Bool.not_not]

end Packets

/-! ### Data packets -/

section Data

variable {u : Overlong} {c : Config} {p : DatPkt} {flit : Bits} {s s' : DatState}

theorem total_headSlots (sent : ℕ) : Bits.total (p.headSlots u c sent ++ [p.byteEnableSlot c sent]) + 8 * c.dataBytes +
    Bits.total (p.tailSlots u c) = DatPkt.flitWidth c := by
  rw [Bits.total_append, DatPkt.headSlots, Bits.total_append, DatPkt.tailSlots, Bits.total_append, total_setIf_set, total_setIf_set,
    total_setIf_set]
  simp only [Bits.total_cons, Bits.total_nil, width_set, width_setBool, DatPkt.byteEnableSlot, DatPkt.flitWidth]
  omega

theorem total_tailSlots : Bits.total (p.tailSlots u c) = c.dataCheckWidth + c.poisonWidth := by
  rw [DatPkt.tailSlots, Bits.total_append, total_setIf_set, total_setIf_set]

theorem total_dataSlots : Bits.total (p.dataSlots c) = 8 * (min p.dataLength c.dataBytes + 1) :=
  Bits.total_range (f := p.dataSlot) (fun _ => rfl) _

/-- Where the data lies in the flit. -/
def dataPos (u : Overlong) (c : Config) (p : DatPkt) (sent : ℕ) : ℕ := Bits.total (p.headSlots u c sent ++ [p.byteEnableSlot c sent])

/-- What a flit is, if there is one. -/
structure Created (u : Overlong) (c : Config) (p : DatPkt) (s : DatState) (flit : Bits) (s' : DatState) : Prop where
  pos : s.pos = 0
  room : p.dataLength < c.dataBytes ∨ 8 ≤ c.dataCheckWidth + c.poisonWidth
  next : s' = { sent := s.sent + c.dataBytes, pos := DatPkt.flitWidth c, flitDone := decide (p.dataLength ≤ s.sent + c.dataBytes) }
  head : flit.Holds 0 (p.headSlots u c s.sent ++ [p.byteEnableSlot c s.sent])
  data : ∀ i < min p.dataLength c.dataBytes, ∀ j < 8, flit (dataPos u c p s.sent + 8 * i + j) = (p.data i).getLsbD j
  tail : flit.Holds (dataPos u c p s.sent + 8 * c.dataBytes) (p.tailSlots u c)

theorem setData_ok_iff (cur : Bits × ℕ) (h : cur.2 = dataPos u c p s.sent) : (∃ r, p.setData c cur = .ok r) ↔
    p.dataLength < c.dataBytes ∨ 8 ≤ c.dataCheckWidth + c.poisonWidth := by
  have htotal := total_headSlots (u := u) (c := c) (p := p) s.sent
  rw [total_tailSlots] at htotal
  have hpos := h
  rw [dataPos] at hpos
  unfold DatPkt.setData
  rw [total_dataSlots]
  split
  · rename_i hroom
    exact iff_of_true ⟨_, rfl⟩ (by omega)
  · rename_i hroom
    refine iff_of_false (fun ⟨r, hr⟩ => by cases hr) (by omega)

theorem created_of_ok (h : p.createFlit u c s = .ok (flit, s')) : Created u c p s flit s' := by
  unfold DatPkt.createFlit at h
  split at h
  · cases h
  · rename_i hpos
    have hpos : s.pos = 0 := not_not.1 hpos
    rw [hpos] at h
    have htotal := total_headSlots (u := u) (c := c) (p := p) s.sent
    have hcur := Bits.putAll_pos (p.headSlots u c s.sent ++ [p.byteEnableSlot c s.sent]) (fun _ => false, 0)
    rw [Nat.zero_add] at hcur
    have hhead := Bits.holds_putAll (p.headSlots u c s.sent ++ [p.byteEnableSlot c s.sent]) (fun _ => false, 0)
    generalize Bits.putAll (p.headSlots u c s.sent ++ [p.byteEnableSlot c s.sent]) (fun _ => false, 0) = cur at h hcur hhead
    dsimp only at h
    have hroom := setData_ok_iff (u := u) (c := c) (p := p) (s := s) cur hcur
    cases hd : p.setData c cur with
    | error e =>
      rw [hd] at h
      cases h
    | ok r =>
      have hr := hroom.1 ⟨r, hd⟩
      rw [hd] at h
      have hout : (Bits.putAll (p.tailSlots u c) r).1 = flit ∧ DatState.mk (s.sent + c.dataBytes) (Bits.putAll (p.tailSlots u c) r).2
          (decide (p.dataLength ≤ s.sent + c.dataBytes)) = s' := Prod.mk.inj (Except.ok.inj h)
      obtain ⟨rfl, rfl⟩ := hout
      unfold DatPkt.setData at hd
      split at hd
      · cases hd
        have hdata := Bits.holds_putAll (p.dataSlots c) cur
        constructor
        · exact hpos
        · exact hr
        · rw [Bits.putAll_pos, hcur]
          exact congrArg (fun x => DatState.mk _ x _) htotal
        · refine hhead.congr fun i _ hi => ?_
          rw [Nat.zero_add] at hi
          have hlt : i < cur.2 := by rw [hcur]; exact hi
          rw [Bits.putAll_of_lt _ (Nat.lt_add_right _ hlt), Bits.putAll_of_lt _ hlt]
        · intro i hi j hj
          have hlane : cur.2 + 8 * i + j < cur.2 + 8 * c.dataBytes := by omega
          rw [dataPos, ← hcur, Bits.putAll_of_lt _ hlane]
          exact hdata.get_range (f := p.dataSlot) (fun _ => rfl) (Nat.lt_succ_of_lt hi) hj
        · rw [dataPos, ← hcur]
          exact Bits.holds_putAll (p.tailSlots u c) ((Bits.putAll (p.dataSlots c) cur).1, cur.2 + 8 * c.dataBytes)
      · cases hd

theorem exists_createFlit (hpos : s.pos = 0) (hroom : p.dataLength < c.dataBytes ∨ 8 ≤ c.dataCheckWidth + c.poisonWidth) :
    ∃ flit s', p.createFlit u c s = .ok (flit, s') := by
  have hcur := Bits.putAll_pos (p.headSlots u c s.sent ++ [p.byteEnableSlot c s.sent]) (fun _ => false, 0)
  rw [Nat.zero_add] at hcur
  obtain ⟨r, hr⟩ := (setData_ok_iff (u := u) _ hcur).2 hroom
  unfold DatPkt.createFlit
  rw [if_neg (not_not.2 hpos), hpos]
  dsimp only
  rw [hr]
  exact ⟨_, _, rfl⟩

/-- The byte enables of a flit, as the receiver has them. -/
def lanes (c : Config) (p : DatPkt) (sent : ℕ) : ℕ → BitVec 8 := fun i =>
  if i < c.dataBytes ∧ (p.byteEnableSlot c sent).bit i = true then byteEnabled else 0

/-- The data of a flit, as the receiver has it. -/
def laneData (c : Config) (s : Slot) : ℕ → BitVec 8 := fun i => if i < c.dataBytes then ofBits 8 fun j => s.bit (8 * i + j) else 0

theorem reads_byteEnable (sent : ℕ) : Reads (DatPkt.extractByteEnable c flit) flit [p.byteEnableSlot c sent] (lanes c p sent) := by
  intro pos h
  refine Prod.ext (funext fun i => ?_) rfl
  show (if i < c.dataBytes ∧ flit (pos + i) = true then byteEnabled else 0) = lanes c p sent i
  by_cases hi : i < c.dataBytes
  · rw [h.1 i hi, lanes]
  · rw [lanes, if_neg fun hc => hi hc.1, if_neg fun hc => hi hc.1]

theorem extract_byte (pos : ℕ) : (extract u flit 8 8 pos).1 = ofBits 8 fun j => flit (pos + j) := by
  apply BitVec.eq_of_getLsbD_eq
  intro i hi
  show (((Bits.slice 64 flit pos 8 &&& intMask u 8).setWidth 8).getLsbD i) = _
  rw [BitVec.getLsbD_setWidth, BitVec.getLsbD_and, Bits.getLsbD_slice, intMask, getLsbD_signExtend_mask (by decide) (by decide) (by omega),
    getLsbD_ofBits]
  simp [hi, show i < 64 by omega]

theorem reads_data {sl : Slot} (hw : sl.width = 8 * c.dataBytes) : Reads (DatPkt.extractData u c flit) flit [sl] (laneData c sl) := by
  intro pos h
  refine Prod.ext (funext fun i => ?_) ?_
  · show (if i < c.dataBytes then (extract u flit 8 8 (pos + 8 * i)).1 else 0) = laneData c sl i
    unfold laneData
    split
    · rename_i hi
      rw [extract_byte]
      apply BitVec.eq_of_getLsbD_eq
      intro j hj
      rw [getLsbD_ofBits, getLsbD_ofBits, Nat.add_assoc, h.1 (8 * i + j) (by rw [hw]; omega)]
    · rfl
  · show pos + 8 * c.dataBytes = pos + Bits.total [sl]
    rw [Bits.total_cons, hw, Bits.total_nil, Nat.add_zero]

/-- What the receiver makes of a flit, of whose data it has `sl`. -/
def received (u : Overlong) (c : Config) (p : DatPkt) (sent : ℕ) (sl : Slot) : DatPkt :=
  { p with
    dataID := BitVec.ofNat 8 (sent / c.dataBytes)
    rsvdc := ((carried u p.rsvdc c.rsvdcWidth).setWidth 8).setWidth 32
    byteEnable := lanes c p sent
    byteEnableLength := c.dataBytes
    data := laneData c sl
    dataLength := c.dataBytes
    dataCheck := carried u p.dataCheck c.dataCheckWidth }

/-- A data packet is parsed to what was made of it. -/
theorem DatPkt.reads_parse (h : p.Declared c) {sent : ℕ} (hsent : (BitVec.ofNat 8 (sent / c.dataBytes)).toNat < 2 ^ 2) {sl : Slot}
    (hsl : sl.width = 8 * c.dataBytes) : Reads (DatPkt.parse u c flit) flit
      (p.headSlots u c sent ++ ([p.byteEnableSlot c sent] ++ ([sl] ++ p.tailSlots u c))) (received u c p sent sl) := by
  have hid : c.nodeIdWidth < 32 := lt_of_le_of_lt c.nodeIdWidth_le (by decide)
  have hop : c.datOpcodeWidth < 32 := lt_of_le_of_lt c.datOpcodeWidth_le (by decide)
  have hpo : c.poisonWidth < 32 := lt_of_le_of_lt c.poisonWidth_le (by decide)
  unfold parse headSlots
  rw [List.append_assoc]
  refine .cons (reads_small (by decide) (by decide) h.qoS) ?_
  refine .cons (reads_small (by decide) hid h.tgtID) ?_
  refine .cons (reads_small (by decide) hid h.srcID) ?_
  refine .cons (reads_small (by decide) (by decide) p.txnID.isLt) ?_
  refine .cons (reads_small (by decide) hid h.homeNID) ?_
  refine .cons (reads_small (by decide) hop h.opcode) ?_
  refine .cons (reads_small (by decide) (by decide) h.respErr) ?_
  refine .cons (reads_small (by decide) (by decide) h.resp) ?_
  refine .cons (reads_small (by decide) (by decide) h.fwdState_DataPull_DataSource) ?_
  refine .cons (reads_small (by decide) (by decide) p.dbid.isLt) ?_
  refine .cons (reads_small (by decide) (by decide) h.ccid) ?_
  refine .cons (reads_small (by decide) (by decide) hsent) ?_
  refine .cons (reads_bool _) ?_
  show Reads _ _ (setIf c.rsvdcWidth (set u p.rsvdc c.rsvdcWidth) ++ ([p.byteEnableSlot c sent] ++ ([sl] ++ p.tailSlots u c))) _
  refine .append (reads_extractIf (by decide) (show 8 ≤ 32 by decide) h.rsvdc) ?_
  refine .append (reads_byteEnable sent) ?_
  refine .append (reads_data hsl) ?_
  refine .append (reads_wideIf (by decide) h.dataCheck) ?_
  refine .last (reads_wideIf (by decide) h.poison) ?_
  rw [carried_eq (by decide) hpo h.poison]
  rfl

/-- The fields of a flit, with the lanes of the data as one. -/
theorem holds_of_created (hc : Created u c p s flit s') : ∃ sl : Slot, sl.width = 8 * c.dataBytes ∧
    flit.Holds 0 (p.headSlots u c s.sent ++ ([p.byteEnableSlot c s.sent] ++ ([sl] ++ p.tailSlots u c))) ∧
    Bits.total (p.headSlots u c s.sent ++ ([p.byteEnableSlot c s.sent] ++ ([sl] ++ p.tailSlots u c))) = DatPkt.flitWidth c ∧
    ∀ i < min p.dataLength c.dataBytes, laneData c sl i = p.data i := by
  let sl : Slot := ⟨8 * c.dataBytes, fun j => flit (dataPos u c p s.sent + j)⟩
  have htotal := total_headSlots (u := u) (c := c) (p := p) s.sent
  refine ⟨sl, rfl, ?_, ?_, fun i hi => ?_⟩
  · rw [← List.append_assoc, Bits.holds_append, Nat.zero_add]
    exact ⟨hc.head, fun _ _ => rfl, hc.tail⟩
  · simp only [Bits.total_append, Bits.total_cons, Bits.total_nil, sl] at htotal ⊢
    omega
  · rw [laneData, if_pos (by omega)]
    apply BitVec.eq_of_getLsbD_eq
    intro j hj
    rw [getLsbD_ofBits, ← hc.data i hi j hj, Nat.add_assoc]
    simp [hj, sl]

/-- What is parsed of a flit, and what its lanes are. -/
theorem parse_of_created (h : p.Declared c) (hsent : (BitVec.ofNat 8 (s.sent / c.dataBytes)).toNat < 2 ^ 2)
    (hc : Created u c p s flit s') : ∃ sl, DatPkt.parse u c flit 0 = (received u c p s.sent sl, DatPkt.flitWidth c) ∧
      ∀ i < min p.dataLength c.dataBytes, laneData c sl i = p.data i := by
  obtain ⟨sl, hwidth, hholds, hlen, hdata⟩ := holds_of_created hc
  refine ⟨sl, ?_, hdata⟩
  rw [DatPkt.reads_parse h hsent hwidth 0 hholds, Nat.zero_add, hlen]

theorem enabled_received {sl : Slot} {i : ℕ} (hi : i < c.dataBytes) :
    (received u c p s.sent sl).enabled i = (p.byteEnableSlot c s.sent).bit i := by
  have hmod : i % c.dataBytes = i := Nat.mod_eq_of_lt hi
  have hne : ¬ c.dataBytes = 0 := by omega
  show (decide (c.dataBytes = 0) || decide (lanes c p s.sent (i % c.dataBytes) = byteEnabled)) = _
  rw [hmod, decide_eq_false hne, Bool.false_or, lanes]
  cases (p.byteEnableSlot c s.sent).bit i with
  | true => simp [hi]
  | false => simp [byteEnabled]

theorem enabled_byteEnableSlot {i : ℕ} (hi : i < p.dataLength) : (p.byteEnableSlot c 0).bit i = p.enabled i := by
  simp only [DatPkt.byteEnableSlot, DatPkt.enabled, Nat.add_zero]
  by_cases hb : p.byteEnableLength = 0
  · simp [hb, hi]
  · simp [hb]

/-- The first flit brings the packet exactly when its wide fields are carried. -/
theorem brought_iff (h : p.Declared c) : RoundTrips u c (.dat p) ↔ Carried u c (.dat p) := by
  constructor
  · rintro ⟨flit, s', q, hcreate, -, hparse, hb⟩
    have hc := created_of_ok hcreate
    obtain ⟨sl, hp, -⟩ := parse_of_created h (by simp) hc
    rw [hp] at hparse
    obtain rfl : received u c p 0 sl = q := (Prod.mk.inj hparse).1
    have hf := hb.fields
    exact ⟨congrArg DatPkt.rsvdc hf, congrArg DatPkt.dataCheck hf, hc.room⟩
  · rintro ⟨hr, hd, hroom⟩
    obtain ⟨flit, s', hcreate⟩ := exists_createFlit (u := u) (s := {}) rfl hroom
    have hc := created_of_ok hcreate
    obtain ⟨sl, hp, hdata⟩ := parse_of_created h (by simp) hc
    refine ⟨flit, s', _, hcreate, by rw [hc.next], hp, ?_, hdata, fun i hi => ?_⟩
    · simp [received, hr, hd]
    · rw [enabled_received (s := {}) (by omega), enabled_byteEnableSlot (by omega)]

end Data

theorem req_roundTrips {u : Overlong} {c : Config} {p : ReqPkt} (h : p.Declared c) : RoundTrips u c (.req p) ↔ Carried u c (.req p) := by
  have hpos : (p.createFlit u c).2 = ReqPkt.flitWidth c := by
    rw [ReqPkt.createFlit, Bits.putAll_pos, total_slots_req, Nat.zero_add]
  have hparse := ReqPkt.reads_parse (u := u) (m := (p.createFlit u c).1) h 0 (Bits.holds_putAll _ _)
  rw [total_slots_req, Nat.zero_add] at hparse
  rw [RoundTrips, hparse]
  constructor
  · rintro ⟨-, heq⟩
    have hp := (Prod.mk.inj heq).1
    exact ⟨congrArg ReqPkt.address hp, congrArg ReqPkt.rsvdc hp⟩
  · rintro ⟨ha, hr⟩
    exact ⟨hpos, by rw [ha, hr]⟩

theorem rsp_roundTrips {u : Overlong} {c : Config} {p : RspPkt} (h : p.Declared c) : RoundTrips u c (.rsp p) := by
  have hparse := RspPkt.reads_parse (u := u) (m := (p.createFlit u c).1) h 0 (Bits.holds_putAll _ _)
  rw [total_slots_rsp, Nat.zero_add] at hparse
  refine ⟨?_, hparse⟩
  rw [RspPkt.createFlit, Bits.putAll_pos, total_slots_rsp, Nat.zero_add]

theorem snp_roundTrips {u : Overlong} {c : Config} {p : SnpPkt} (h : p.Declared c) : RoundTrips u c (.snp p) := by
  have hparse := SnpPkt.reads_parse (u := u) (m := (p.createFlit u c).1) h 0 (Bits.holds_putAll _ _)
  rw [total_slots_snp, Nat.zero_add] at hparse
  refine ⟨?_, hparse⟩
  rw [SnpPkt.createFlit, Bits.putAll_pos, total_slots_snp, Nat.zero_add]

/-- **A packet comes back from its flit exactly when** its wide fields are carried. -/
theorem flit_roundTrips_iff (u : Overlong) (c : Config) (x : Packet) (h : Declared c x) : RoundTrips u c x ↔ Carried u c x := by
  cases x with
  | req p => exact req_roundTrips h
  | rsp p => exact iff_of_true (rsp_roundTrips h) trivial
  | snp p => exact iff_of_true (snp_roundTrips h) trivial
  | dat p => exact brought_iff h

/-- The bridges' default widths. -/
def defaultConfig : Config where
  addrWidth := 44
  nodeIdWidth := 7
  dataBytes := 64
  rsvdcWidth := 32
  dataCheckWidth := 64
  poisonWidth := 8
  datOpcodeWidth := 4

/-- A read of a line. -/
def lineRead (address : BitVec 64) : ReqPkt where
  qoS := 0
  tgtID := 20
  srcID := 3
  txnID := 1
  returnNID_StashNID := 0
  stashNIDValid_Endian := false
  returnTxnID := 0
  opcode := 0x26
  dataLength := 64
  address := address
  secure := true
  likelyShared := false
  allowRetry := true
  order := 0
  pCrdType := 0
  allocate := true
  cacheable := true
  deviceMemory := false
  earlyWrAck := true
  snpAttr := true
  lpid := 0
  excl_SnoopMe := false
  expCompAck := true
  traceTag := false
  rsvdc := 0

theorem declared_lineRead {a : BitVec 64} (h : a.toNat < 2 ^ 44) : (lineRead a).Declared defaultConfig where
  qoS := by simp [lineRead]
  tgtID := by simp [lineRead, defaultConfig]
  srcID := by simp [lineRead, defaultConfig]
  returnNID_StashNID := by simp [lineRead, defaultConfig]
  opcode := by simp [lineRead]
  size := ⟨6, le_rfl, rfl⟩
  address := h
  order := by simp [lineRead]
  pCrdType := by simp [lineRead]
  lpid := by simp [lineRead]
  rsvdc := by simp [lineRead, defaultConfig]

theorem flit_roundTrips_lineRead : RoundTrips x86 defaultConfig (.req (lineRead 0xfc0)) :=
  (flit_roundTrips_iff x86 defaultConfig (.req (lineRead 0xfc0)) (declared_lineRead (by decide))).2 (by unfold Carried; decide)

/-- **An address is cut** by the mask `(1 << 44) - 1` of an `int`: all but the twelve low bits are lost. -/
theorem not_roundTrips_lineRead : ¬ RoundTrips x86 defaultConfig (.req (lineRead 0x1000)) := by
  rw [req_roundTrips (declared_lineRead (by decide))]
  unfold Carried
  decide

end LibSystemCTLM.Chi
