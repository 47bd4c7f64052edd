import LibSystemCTLM.Ccix.Transfer

/-!
# What CCIX requests bring

A request has an address, which is put together again (`address_joined`) but of which not all can
be sent (`addressFits_of_ok`): the fields for the bits 63:52 are set and asked for in the wrong
word. Its data is found behind its byte enables exactly if these are passed, which
`ParseByteEnables` fails to do for 8 bytes (`withTail_byteEnables_iff`). And a chain needs a
request before it. These are all the conditions (`req_roundTrips_iff`).
-/

namespace LibSystemCTLM.Ccix

open Foundation

/-! ### Addresses -/

/-- The bits 63:52 and 39:32 of the address are clear. -/
def AddressFits (a : BitVec 64) : Prop := a.toNat < 2 ^ 52 ∧ a.toNat / 2 ^ 32 % 2 ^ 8 = 0

section Address

variable {a x : BitVec 64} {m m₀ : IMsg} {more : Bool} {e : List (BitVec 32)}

theorem toNat_addressHigh (m : IMsg) : m.addressHigh.toNat = m.address.toNat / 2 ^ 32 := by
  have hlt := m.address.isLt
  rw [IMsg.addressHigh, BitVec.toNat_setWidth, BitVec.toNat_ushiftRight, Nat.shiftRight_eq_div_pow]
  omega

theorem toNat_addressLow (a : BitVec 64) : ((a >>> 6).setWidth 32).toNat = a.toNat / 2 ^ 6 % 2 ^ 32 := by
  rw [BitVec.toNat_setWidth, BitVec.toNat_ushiftRight, Nat.shiftRight_eq_div_pow]

theorem get_ne_zero (f : BitField) (hf : f.width ≤ 32) (v : BitVec 32) : f.get v ≠ 0 ↔ v.toNat / 2 ^ f.shift % 2 ^ f.width ≠ 0 := by
  rw [BitField.get, ne_eq, ← BitVec.toNat_inj, toNat_getField _ _ hf]
  rfl

theorem extType0Required_iff : m.extType0Required = true ↔ m.address.toNat / 2 ^ 52 % 2 ^ 4 ≠ 0 ∨ m.address.toNat / 2 ^ 32 % 2 ^ 8 ≠ 0 := by
  rw [IMsg.extType0Required, Bool.or_eq_true, decide_eq_true_iff, decide_eq_true_iff, get_ne_zero _ (by decide), get_ne_zero _ (by decide),
    toNat_addressHigh, Nat.div_div_eq_div_mul, Nat.div_div_eq_div_mul]
  rfl

theorem extType1Required_iff : m.extType1Required = true ↔ m.address.toNat % 2 ^ 6 ≠ 0 := by
  rw [IMsg.extType1Required, decide_eq_true_iff, get_ne_zero _ (by decide), BitVec.toNat_setWidth]
  show m.address.toNat % 2 ^ 32 / 2 ^ 0 % 2 ^ 6 ≠ 0 ↔ _
  omega

/-- An address that fits needs no extension for its upper bits, -/
theorem extType0Required_of_fits (h : AddressFits m.address) : m.extType0Required = false := by
  obtain ⟨hlt, hmid⟩ := h
  rw [Bool.eq_false_iff, ne_eq, extType0Required_iff]
  omega

/-- and fits in the fields there are. -/
theorem fits_of_addressFits (h : AddressFits m.address) : m.addressHigh.toNat < 2 ^ 20 ∧ ((m.address >>> 6).setWidth 32).toNat < 2 ^ 26 := by
  obtain ⟨hlt, hmid⟩ := h
  rw [toNat_addressHigh, toNat_addressLow]
  omega

/-- **No other address can be sent**: where an extension is needed, an assertion fails. -/
theorem addressFits_of_ok (h₀ : m.placeExt0 more = .ok e) (h₁ : m.addressHigh.toNat < 2 ^ 20)
    (h₂ : ((m.address >>> 6).setWidth 32).toNat < 2 ^ 26) : AddressFits m.address := by
  rw [toNat_addressLow] at h₂
  rw [toNat_addressHigh] at h₁
  unfold AddressFits
  cases hreq : m.extType0Required with
  | false =>
    have hnot := mt extType0Required_iff.2 (Bool.eq_false_iff.1 hreq)
    omega
  | true =>
    exfalso
    rw [IMsg.placeExt0, if_pos hreq] at h₀
    cases hw : word [(IMsg.ext, ofBool more), (IMsg.extType, Msg.extType0), (IMsg.address_63_60, m.addressHigh),
      (IMsg.address_59_52, m.addressHigh)] with
    | error f =>
      rw [hw] at h₀
      cases h₀
    | ok w =>
      have hfits := fits_of_word (by simp only [List.forall_mem_cons]; exact ⟨by decide, by decide, by decide, by decide, List.forall_mem_nil _⟩) hw
      have hfour : m.addressHigh.toNat < 2 ^ 4 := hfits (IMsg.address_63_60, m.addressHigh) (by simp)
      rw [toNat_addressHigh] at hfour
      have hbits := extType0Required_iff.1 hreq
      omega

/-- The address is put together again. -/
theorem address_joined (hx : ∀ i, x.getLsbD i = (decide (i < 6) && a.getLsbD i)) :
    x ||| ((a >>> 32).setWidth 32).setWidth 64 <<< 32 ||| ((a >>> 6).setWidth 32).setWidth 64 <<< 6 = a := by
  apply BitVec.eq_of_getLsbD_eq
  intro i hi
  simp only [BitVec.getLsbD_or, hx, BitVec.getLsbD_shiftLeft, BitVec.getLsbD_setWidth, BitVec.getLsbD_ushiftRight]
  by_cases h₁ : i < 6
  · simp [h₁, show i < 32 by omega]
  · by_cases h₂ : i < 32
    · simp [h₁, h₂, hi, show i - 6 < 32 by omega, show i - 6 < 64 by omega, show 6 + (i - 6) = i by omega]
    · by_cases h₃ : i - 6 < 32
      · simp [h₁, h₂, h₃, hi, show i - 32 < 32 by omega, show i - 32 < 64 by omega, show i - 6 < 64 by omega, show 32 + (i - 32) = i by omega,
          show 6 + (i - 6) = i by omega]
      · simp [h₁, h₂, h₃, hi, show i - 32 < 32 by omega, show i - 32 < 64 by omega, show 32 + (i - 32) = i by omega]

/-- Without the extension, the address ends in six clear bits. -/
theorem lowBits_of_not_required (h : m.extType1Required = false) (i : ℕ) : (0 : BitVec 64).getLsbD i = (decide (i < 6) && m.address.getLsbD i) := by
  have hz : m.address.toNat % 2 ^ 6 = 0 := by
    by_contra hne
    rw [extType1Required_iff.2 hne] at h
    cases h
  by_cases hi : i < 6
  · have hbit : m.address.getLsbD i = (m.address.toNat % 2 ^ 6).testBit i := by
      rw [Nat.testBit_mod_two_pow, decide_eq_true hi, Bool.true_and]
      rfl
    rw [hbit, hz]
    simp
  · simp [hi]

/-- The extension is made if it is needed and may be used. -/
theorem placeExt1_ok (h : m.extType1Required = true → MsgReq.extType1Allowed m.attr = true) (m₀ : IMsg) : ∃ e, MsgReq.placeExt1 m = .ok e ∧
    e.length = (if m.extType1Required then 1 else 0) ∧ ∀ w rest, IMsg.ext.get w = ofBool m.extType1Required → m₀.address = 0 →
      ∃ x, (∀ i, x.getLsbD i = (decide (i < 6) && m.address.getLsbD i)) ∧
        IMsg.extractExtensions (bytesOf (w :: (e ++ rest))) (bytesOf (w :: (e ++ rest))).length w m₀ 4 =
          .ok ({ m₀ with address := x }, 4 * (1 + e.length)) := by
  cases hreq : m.extType1Required with
  | false =>
    refine ⟨[], by rw [MsgReq.placeExt1, hreq]; rfl, rfl, fun w rest hw hz => ⟨0, lowBits_of_not_required hreq, ?_⟩⟩
    rw [extractExtensions_none hw, ← hz]
    rfl
  | true =>
    let fs : List (BitField × BitVec 32) := [(IMsg.extType, Msg.extType1), (IMsg.address_5_0, m.address.setWidth 32 &&& fieldMask 6)]
    have hmask : (m.address.setWidth 32 &&& fieldMask 6).toNat < 2 ^ 6 := by
      have hlow := getField_lt (s := 0) (w := 6) (by decide) (m.address.setWidth 32)
      rwa [getField, BitVec.ushiftRight_zero] at hlow
    have hfit : ∀ p ∈ fs, BitField.Fits p := by
      simp only [fs, List.forall_mem_cons]
      exact ⟨fits_ofNat (by decide), fits_val hmask, List.forall_mem_nil _⟩
    have hc := carries_join hfit rfl (by decide : List.Pairwise BitField.Apart [IMsg.extType, IMsg.address_5_0])
    have hext : IMsg.ext.get (join fs) = 0 := get_join_of_apart hfit (by decide) (by
      simp only [fs, List.forall_mem_cons]
      exact ⟨by show BitField.Apart IMsg.ext IMsg.extType; decide, by show BitField.Apart IMsg.ext IMsg.address_5_0; decide, List.forall_mem_nil _⟩)
    have htype : IMsg.extType.get (join fs) = Msg.extType1 := hc (IMsg.extType, Msg.extType1) (by simp [fs])
    have hlow : IMsg.address_5_0.get (join fs) = m.address.setWidth 32 &&& fieldMask 6 := hc (IMsg.address_5_0, _) (by simp [fs])
    refine ⟨[join fs], ?_, rfl, fun w rest hw hz => ⟨(m.address.setWidth 32 &&& fieldMask 6).setWidth 64, fun i => ?_, ?_⟩⟩
    · rw [MsgReq.placeExt1, if_pos hreq, if_pos (h hreq), word_of_fits hfit]
      rfl
    · rw [BitVec.getLsbD_setWidth, BitVec.getLsbD_and, BitVec.getLsbD_setWidth, getLsbD_fieldMask (by decide)]
      by_cases hi : i < 6
      · simp [hi, show i < 32 by omega, show i < 64 by omega]
      · simp [hi]
    · have hnext : getNext (bytesOf (w :: ([join fs] ++ rest))) 4 = .ok (join fs) := getNext_bytesOf (k := 1) rfl
      have hlen : 0 < (bytesOf (w :: ([join fs] ++ rest))).length := by
        rw [length_bytesOf, List.length_cons]
        omega
      rw [extractExtensions_one (by rw [hw]; decide) hlen hnext hext, IMsg.extractExtension, htype, hlow, hz]
      simp [Msg.extType0, Msg.extType1]

end Address

/-! ### Data -/

/-- The lengths of the data of a message. -/
def IsDataLength (n : ℕ) : Prop := n = 8 ∨ n = 16 ∨ n = 32 ∨ n = 64

section Data

variable {m : IMsg} {be : Bool} {l : List (BitVec 32)} {i : ℕ}

theorem length_placeBE (m : IMsg) : m.placeBE.length = (m.dataLength + 31) / 32 := length_arrayWords ..

/-- The words of the data, and of the byte enables before it. -/
def IMsg.tailWords (be : Bool) (m : IMsg) : List (BitVec 32) :=
  if m.write then (if be then m.placeBE else []) ++ arrayWords m.data (m.dataLength / 4) else []

theorem tail_eq (h : m.write = true → IsDataLength m.dataLength) : m.tail be = .ok (m.tailWords be) := by
  unfold IMsg.tail IMsg.tailWords
  by_cases hw : m.write = true
  · have h4 : m.dataLength % 4 = 0 := by
      rcases h hw with h | h | h | h <;> rw [h]
    rw [if_pos hw, if_pos hw, IMsg.placeData, if_pos h4]
    rfl
  · rw [if_neg hw, if_neg hw]

theorem length_tailWords (h : m.write = true → IsDataLength m.dataLength) (be : Bool) : (m.tailWords be).length ≤ 18 := by
  unfold IMsg.tailWords
  by_cases hw : m.write = true
  · have hlen := h hw
    rw [if_pos hw, List.length_append, length_arrayWords]
    cases be with
    | true =>
      rw [if_pos rfl, length_placeBE]
      rcases hlen with hl | hl | hl | hl <;> rw [hl] <;> decide
    | false =>
      rw [if_neg Bool.false_ne_true, List.length_nil]
      rcases hlen with hl | hl | hl | hl <;> rw [hl] <;> decide
  · rw [if_neg hw]
    exact Nat.zero_le _

theorem length_bytesOf_data (l : List (BitVec 32)) (h : IsDataLength m.dataLength) :
    (bytesOf (l ++ arrayWords m.data (m.dataLength / 4))).length = 4 * l.length + m.dataLength := by
  rw [length_bytesOf, List.length_append, length_arrayWords]
  rcases h with h | h | h | h <;> omega

/-- The data is found behind what comes before it. -/
theorem getD_data (l : List (BitVec 32)) (h : IsDataLength m.dataLength) (hi : i < m.dataLength) :
    (bytesOf (l ++ arrayWords m.data (m.dataLength / 4))).getD (4 * l.length + i) 0 = m.data i := by
  have hlt : i < 4 * (m.dataLength / 4) := by
    rcases h with h | h | h | h <;> omega
  have hget := getElem?_arrayWords l m.data (m.dataLength / 4) [] hlt
  rw [List.append_nil] at hget
  rw [List.getD_eq_getElem?_getD, hget, Option.getD_some]

/-- A byte enable is found in its bit. -/
theorem getD_byteEnable (l r : List (BitVec 32)) (hi : i < m.dataLength) :
    ((bytesOf (l ++ m.placeBE ++ r)).getD (4 * l.length + i / 8) 0).getLsbD (i % 8) = m.enabled i := by
  have hlt : i / 8 < 4 * ((m.dataLength + 31) / 32) := by omega
  have hget := getElem?_arrayWords l m.placedBE ((m.dataLength + 31) / 32) r hlt
  rw [List.getD_eq_getElem?_getD, IMsg.placeBE, hget, Option.getD_some, IMsg.placedBE, IMsg.enabled]
  have hmod : i % 8 < 8 := Nat.mod_lt _ (by decide)
  have hback : 8 * (i / 8) + i % 8 = i := Nat.div_add_mod i 8
  by_cases hb : m.byteEnableLength = 0
  · rw [if_pos hb, if_neg (by omega), decide_eq_true hb, Bool.true_or]
    have hall : ∀ j < 8, (0xff : BitVec 8).getLsbD j = true := by decide
    exact hall _ hmod
  · rw [if_neg hb, getLsbD_ofBits, hback, decide_eq_true hmod, decide_eq_true hi, Bool.true_and, Bool.true_and, IMsg.enabled]

end Data

/-! ### Headers -/

section Header

variable {m : IMsg} {w : BitVec 32} {ws : List (BitVec 32)} {n : ℕ}

/-- What the header of a message of `n` words says. -/
def IMsg.common (m : IMsg) (n : ℕ) : IMsg where
  attr := { tgtID := m.attr.tgtID, srcID := m.attr.srcID, msgCredit := m.attr.msgCredit, msgType := m.attr.msgType, msgLen := BitVec.ofNat 8 n }

theorem ofHeader_eq (htype : IMsg.msgType.get w = m.attr.msgType.setWidth 32) (hlen : IMsg.msgLen.get w = BitVec.ofNat 32 n) :
    IMsg.ofHeader m.attr.tgtID m.attr.srcID m.attr.msgCredit w = m.common n := by
  have hback : (BitVec.ofNat 32 n).setWidth 8 = BitVec.ofNat 8 n := by
    apply BitVec.eq_of_toNat_eq
    rw [BitVec.toNat_setWidth, BitVec.toNat_ofNat, BitVec.toNat_ofNat]
    omega
  rw [IMsg.ofHeader, htype, hlen, widen_byte, hback]
  rfl

theorem toNat_msgLen_common (hn : n < 32) : (BitVec.ofNat 8 n).toNat = n := by
  rw [BitVec.toNat_ofNat]
  omega

/-- The message is extracted from its first word on. -/
theorem extracted_eq (htype : IMsg.msgType.get w = m.attr.msgType.setWidth 32) (hlen : IMsg.msgLen.get w = BitVec.ofNat 32 n) :
    extracted m (w :: ws) = TLPAssembler.newMsg w (bytesOf (w :: ws)) (m.common n) := by
  have hbytes : ¬ (bytesOf (w :: ws)).length < 4 := by
    rw [length_bytesOf, List.length_cons]
    omega
  rw [extracted, TLPAssembler.extractCCIXMessage, if_neg hbytes, getNext_bytesOf (k := 0) rfl]
  show TLPAssembler.newMsg w _ (IMsg.ofHeader _ _ _ w) = _
  rw [ofHeader_eq htype hlen]

end Header

/-! ### Requests -/

/-- What is read in the words of a request of `n` words. -/
structure ReqWords (m : IMsg) (n : ℕ) (w w₁ w₂ : BitVec 32) : Prop where
  ext : IMsg.ext.get w = ofBool m.extType1Required
  msgType : IMsg.msgType.get w = m.attr.msgType.setWidth 32
  msgLen : IMsg.msgLen.get w = BitVec.ofNat 32 n
  txnID : MsgReq.txnID.get w = m.attr.txnID.setWidth 32
  reqOp : MsgReq.reqOp.get w = m.attr.reqOp.setWidth 32
  reqAttr : MsgReq.reqAttr.get w₁ = m.attr.reqAttr.setWidth 32
  addressHigh : MsgReq.address_51_32.get w₁ = m.addressHigh
  addressLow : MsgReq.address_31_6.get w₂ = (m.address >>> 6).setWidth 32
  ns : MsgReq.ns.get w₂ = ofBool !m.attr.secure
  qoS : MsgReq.qoS.get w₂ = m.attr.qoS.setWidth 32

section Requests

variable {m : IMsg} {e t ws : List (BitVec 32)} {w w₁ w₂ : BitVec 32} {n : ℕ}

theorem req_create (hreq : m.attr.msgType = Msg.typeReq) (ha : AddressFits m.address) (htxn : m.attr.txnID.toNat < 2 ^ 12)
    (hqoS : m.attr.qoS.toNat < 2 ^ 4) (he : MsgReq.placeExt1 m = .ok e) (ht : m.tail (MsgReq.hasByteEnables m.attr) = .ok t)
    (hlen : e.length + 2 + t.length < 31) :
    ∃ w w₁ w₂, ReqWords m (e.length + 3 + t.length) w w₁ w₂ ∧ MsgReq.create m = .ok (w :: (e ++ ([w₁, w₂] ++ t))) := by
  obtain ⟨hhigh, hlow⟩ := fits_of_addressFits ha
  have htype : m.attr.msgType.toNat < 2 ^ 4 := by rw [hreq]; decide
  obtain ⟨w₀, w, hw₀, hc, hset⟩ := firstWord_ok (n := e.length + 3 + t.length)
    (l := [(IMsg.ext, ofBool m.extType1Required), (IMsg.msgType, m.attr.msgType.setWidth 32)])
    (r := [(MsgReq.txnID, m.attr.txnID.setWidth 32), (MsgReq.rsvd0_0, 0), (MsgReq.reqOp, m.attr.reqOp.setWidth 32)]) (by omega)
    (by
      simp only [List.cons_append, List.nil_append, List.forall_mem_cons]
      exact ⟨fits_ofBool _, fits_widen htype, fits_ofNat (show _ < 32 by omega),
        fits_widen htxn, fits_zero, fits_widen m.attr.reqOp.isLt,
        List.forall_mem_nil _⟩)
    rfl (by decide : List.Pairwise BitField.Apart [IMsg.ext, IMsg.msgType, IMsg.msgLen, MsgReq.txnID, MsgReq.rsvd0_0, MsgReq.reqOp])
  obtain ⟨w₁, hw₁, hc₁⟩ := word_ok
    [(MsgReq.reqAttr, m.attr.reqAttr.setWidth 32), (MsgReq.rsvd2_0, 0), (MsgReq.address_51_32, m.addressHigh)]
    (by
      simp only [List.forall_mem_cons]
      exact ⟨fits_widen m.attr.reqAttr.isLt, fits_zero, fits_val hhigh,
        List.forall_mem_nil _⟩)
    rfl (by decide : List.Pairwise BitField.Apart [MsgReq.reqAttr, MsgReq.rsvd2_0, MsgReq.address_51_32])
  obtain ⟨w₂, hw₂, hc₂⟩ := word_ok
    [(MsgReq.address_31_6, (m.address >>> 6).setWidth 32), (MsgReq.rsvd3_0, 0), (MsgReq.ns, ofBool !m.attr.secure),
      (MsgReq.qoS, m.attr.qoS.setWidth 32)]
    (by
      simp only [List.forall_mem_cons]
      exact ⟨fits_val hlow, fits_zero, fits_ofBool _,
        fits_widen hqoS, List.forall_mem_nil _⟩)
    rfl (by decide : List.Pairwise BitField.Apart [MsgReq.address_31_6, MsgReq.rsvd3_0, MsgReq.ns, MsgReq.qoS])
  simp only [Carries, List.cons_append, List.nil_append, List.forall_mem_cons] at hc hc₁ hc₂
  obtain ⟨h1, h2, h3, h4, -, h6, -⟩ := hc
  obtain ⟨h7, -, h8, -⟩ := hc₁
  obtain ⟨h9, -, h10, h11, -⟩ := hc₂
  refine ⟨w, w₁, w₂, ⟨h1, h2, h3, h4, h6, h7, h8, h9, h10, h11⟩, ?_⟩
  have hl : (e ++ ([w₁, w₂] ++ t)).length + 1 = e.length + 3 + t.length := by
    simp only [List.length_append, List.length_cons, List.length_nil]
    omega
  simp only [List.cons_append, List.nil_append] at hw₀
  rw [MsgReq.create, IMsg.placeExt0, extType0Required_of_fits ha, if_neg Bool.false_ne_true, Bool.false_or, hw₀, he, hw₁, hw₂, ht]
  show setMsgLen w₀ ([] ++ e ++ [w₁, w₂] ++ t) = _
  rw [List.nil_append, List.append_assoc]
  exact hset _ hl

/-- What the header and the fields of a request say. -/
def IMsg.reqHead (m : IMsg) (n : ℕ) : IMsg where
  address := m.address
  attr := { tgtID := m.attr.tgtID, srcID := m.attr.srcID, msgCredit := m.attr.msgCredit, msgType := m.attr.msgType, msgLen := BitVec.ofNat 8 n
            txnID := m.attr.txnID, reqOp := m.attr.reqOp, reqAttr := m.attr.reqAttr, secure := m.attr.secure, qoS := m.attr.qoS }

theorem secure_back (s : Bool) : (!decide (ofBool (!s) ≠ 0)) = s := by cases s <;> decide

/-- The header and the fields of a request come before its byte enables and its data. -/
theorem req_extractMessage {b : List (BitVec 8)} {m₀ m₁ m₂ : IMsg} {p₁ p₂ : ℕ} (hnext : getNext b 0 = .ok w)
    (hexts : IMsg.extractExtensions b b.length w { m₀ with attr := { m₀.attr with
      txnID := (MsgReq.txnID.get w).setWidth 16, reqOp := (MsgReq.reqOp.get w).setWidth 8 } } 4 = .ok (m₁, p₁))
    (hfields : MsgReq.extractFields b m₁ p₁ = .ok (m₂, p₂)) :
    MsgReq.extractMessage b m₀ = MsgReq.extractByteEnables b m₂ p₂ >>= fun p =>
      p.1.parseTail b (MsgReq.isWrite p.1.attr || MsgReq.isAtomic p.1.attr || MsgReq.isReqChain p.1.attr) p.2 := by
  simp only [MsgReq.extractMessage, bind, Except.bind, hnext, hexts, hfields]

/-- **The fields of a request are read back.** -/
theorem req_extracted (hreq : m.attr.msgType = Msg.typeReq) (hchain : MsgReq.isReqChain m.attr = false)
    (hext : m.extType1Required = true → MsgReq.extType1Allowed m.attr = true) (he : MsgReq.placeExt1 m = .ok e)
    (hw : ReqWords m (e.length + 3 + t.length) w w₁ w₂) :
    extracted m (w :: (e ++ ([w₁, w₂] ++ t))) =
      MsgReq.extractByteEnables (bytesOf (w :: (e ++ ([w₁, w₂] ++ t)))) (m.reqHead (e.length + 3 + t.length)) (4 * (e.length + 3)) >>= fun p =>
        p.1.parseTail (bytesOf (w :: (e ++ ([w₁, w₂] ++ t))))
          (MsgReq.isWrite p.1.attr || MsgReq.isAtomic p.1.attr || MsgReq.isReqChain p.1.attr) p.2 := by
  obtain ⟨e', he', -, hread⟩ := placeExt1_ok hext ({ m.common (e.length + 3 + t.length) with
    attr := { (m.common (e.length + 3 + t.length)).attr with txnID := m.attr.txnID, reqOp := m.attr.reqOp } })
  obtain rfl : e' = e := by
    rw [he] at he'
    exact (Except.ok.inj he').symm
  obtain ⟨x, hx, hexts⟩ := hread w ([w₁, w₂] ++ t) hw.ext rfl
  rw [extracted_eq hw.msgType hw.msgLen, TLPAssembler.newMsg, if_pos (show (m.common _).attr.msgType = _ from hreq)]
  have hnext : getNext (bytesOf (w :: (e' ++ ([w₁, w₂] ++ t)))) 0 = .ok w := getNext_bytesOf (k := 0) rfl
  have hnext₁ : getNext (bytesOf (w :: (e' ++ ([w₁, w₂] ++ t)))) (4 * (1 + e'.length)) = .ok w₁ := getNext_bytesOf (by
    rw [Nat.add_comm, List.getElem?_cons_succ, List.getElem?_append_right le_rfl, Nat.sub_self]
    rfl)
  have hnext₂ : getNext (bytesOf (w :: (e' ++ ([w₁, w₂] ++ t)))) (4 * (e'.length + 2)) = .ok w₂ := getNext_bytesOf (by
    rw [List.getElem?_cons_succ, List.getElem?_append_right (by omega), Nat.add_sub_cancel_left]
    rfl)
  generalize bytesOf (w :: (e' ++ ([w₁, w₂] ++ t))) = b at *
  have hfields : MsgReq.extractFields b { m.common (e'.length + 3 + t.length) with
      address := x, attr := { (m.common (e'.length + 3 + t.length)).attr with txnID := m.attr.txnID, reqOp := m.attr.reqOp } }
      (4 * (1 + e'.length)) = .ok (m.reqHead (e'.length + 3 + t.length), 4 * (e'.length + 3)) := by
    have hpos : 4 * (1 + e'.length) + 4 = 4 * (e'.length + 2) := by omega
    have hend : 4 * (1 + e'.length) + 8 = 4 * (e'.length + 3) := by omega
    rw [MsgReq.extractFields, hnext₁]
    show (if MsgReq.isReqChain m.attr = true then _ else _) = _
    rw [hchain, if_neg Bool.false_ne_true, hpos, hnext₂, hend]
    show Except.ok _ = _
    rw [hw.reqAttr, hw.ns, hw.qoS, hw.addressHigh, hw.addressLow, IMsg.addressHigh, widen_byte, widen_byte, secure_back,
      address_joined hx]
    rfl
  refine req_extractMessage hnext ?_ hfields
  rw [hw.txnID, hw.reqOp, widen_half, widen_byte]
  exact hexts

/-- The attributes that only an extension could bring. -/
structure NoExtensions (a : Attr) : Prop where
  user : a.user = 0
  respErr : a.respErr = 0
  poison0 : a.poison0 = 0
  poison1 : a.poison1 = 0

theorem part_reqHead (hreq : m.attr.msgType = Msg.typeReq) : (m.reqHead n).attr.part = m.attr.part ↔ NoExtensions m.attr := by
  have hreq' : (m.reqHead n).attr.msgType = Msg.typeReq := hreq
  unfold Attr.part
  rw [if_pos hreq, if_pos hreq']
  constructor
  · intro h
    exact ⟨(congrArg Attr.user h).symm, (congrArg Attr.respErr h).symm, (congrArg Attr.poison0 h).symm, (congrArg Attr.poison1 h).symm⟩
  · rintro ⟨hu, hr, hp, hq⟩
    rw [hu, hr, hp, hq]
    rfl

/-- What the port can build of a request. -/
structure ReqBuildable (m : IMsg) : Prop where
  txnID : m.attr.txnID.toNat < 2 ^ 12
  qoS : m.attr.qoS.toNat < 2 ^ 4
  address : m.address.toNat % 2 ^ 6 = 0 ∨ MsgReq.extType1Allowed m.attr = true
  data : m.write = true → IsDataLength m.dataLength ∧ (MsgReq.isWrite m.attr || MsgReq.isAtomic m.attr || MsgReq.isReqChain m.attr) = true
  /-- An opcode that has byte enables has data, -/
  write : MsgReq.hasByteEnables m.attr = true → m.write = true
  /-- and with any other all bytes are enabled. -/
  enabled : MsgReq.hasByteEnables m.attr = false → m.write = true → ∀ i < m.dataLength, m.enabled i = true

/-- The byte enables are read where they are: the size in `ReqAttr` is not 8, and of as many words as the length of
the data; and they say of no byte from this size on that it is enabled. -/
def ByteEnablesCarried (m : IMsg) : Prop := ∃ n, MsgReq.getSize m.attr = .ok n ∧ 8 < n ∧ (n + 31) / 32 = (m.dataLength + 31) / 32 ∧
  ∀ i < m.dataLength, n ≤ i → m.enabled i = false

/-- What a request needs to come back. -/
structure ReqCarried (m : IMsg) : Prop where
  address : AddressFits m.address
  notChained : MsgReq.isReqChain m.attr = false
  byteEnables : MsgReq.hasByteEnables m.attr = true → ByteEnablesCarried m
  noExtensions : NoExtensions m.attr

theorem ReqBuildable.ext1 (h : ReqBuildable m) (hreq : m.extType1Required = true) : MsgReq.extType1Allowed m.attr = true := by
  rcases h.address with hz | hallowed
  · exact absurd hz (extType1Required_iff.1 hreq)
  · exact hallowed

theorem ReqBuildable.length (h : ReqBuildable m) (be : Bool) : (m.tailWords be).length ≤ 18 := length_tailWords (fun hw => (h.data hw).1) be

/-- The words of a request, if its address fits. -/
theorem ReqBuildable.created (h : ReqBuildable m) (hreq : m.attr.msgType = Msg.typeReq) (ha : AddressFits m.address) :
    ∃ e w w₁ w₂ t, t = m.tailWords (MsgReq.hasByteEnables m.attr) ∧ e.length ≤ 1 ∧ MsgReq.placeExt1 m = .ok e ∧
      ReqWords m (e.length + 3 + t.length) w w₁ w₂ ∧ createMsg m = .ok (w :: (e ++ ([w₁, w₂] ++ t))) := by
  obtain ⟨e, he, hlen, -⟩ := placeExt1_ok h.ext1 m
  have hle : e.length ≤ 1 := by
    rw [hlen]
    split <;> decide
  have ht := h.length (MsgReq.hasByteEnables m.attr)
  obtain ⟨w, w₁, w₂, hw, hc⟩ := req_create hreq ha h.txnID h.qoS he (tail_eq fun hwr => (h.data hwr).1) (by omega)
  exact ⟨e, w, w₁, w₂, _, rfl, hle, he, hw, by rw [createMsg, if_pos hreq, hc]⟩

/-- A request with another address is not made. -/
theorem addressFits_of_req {k : TLPHdr} (hreq : m.attr.msgType = Msg.typeReq) (hr : RoundTrips k m) : AddressFits m.address := by
  cases hc : createMsg m with
  | error f => exact absurd hr (not_roundTrips_of_create hc)
  | ok ws =>
    rw [createMsg, if_pos hreq, MsgReq.create] at hc
    obtain ⟨w, -, hc⟩ := exists_of_bind hc
    obtain ⟨e₀, he₀, hc⟩ := exists_of_bind hc
    obtain ⟨e₁, -, hc⟩ := exists_of_bind hc
    obtain ⟨w₁, hw₁, hc⟩ := exists_of_bind hc
    obtain ⟨w₂, hw₂, -⟩ := exists_of_bind hc
    have hhigh := fits_of_word (by simp only [List.forall_mem_cons]; exact ⟨by decide, by decide, by decide, List.forall_mem_nil _⟩) hw₁
      (MsgReq.address_51_32, m.addressHigh) (by simp)
    have hlow := fits_of_word (by simp only [List.forall_mem_cons]; exact ⟨by decide, by decide, by decide, by decide, List.forall_mem_nil _⟩) hw₂
      (MsgReq.address_31_6, (m.address >>> 6).setWidth 32) (by simp)
    exact addressFits_of_ok he₀ hhigh hlow

/-- A chain lacks a request before it. -/
theorem setup_chain {m' : IMsg} (htype : m'.attr.msgType = Msg.typeReq) (hop : MsgReq.isReqChain m'.attr = true) :
    TLPAssembler.setup [] m' = .error .reported := by
  rw [TLPAssembler.setup, if_pos ⟨htype, hop⟩]
  rfl

/-- A request that is chained stays so while it is extracted. -/
theorem chain_of_extracted {b : List (BitVec 8)} {m' : IMsg} (hnext : getNext b 0 = .ok w)
    (hop : (MsgReq.reqOp.get w).setWidth 8 = Msg.reqChain) (h : MsgReq.extractMessage b m = .ok m') :
    m'.attr.msgType = m.attr.msgType ∧ MsgReq.isReqChain m'.attr = true := by
  rw [MsgReq.extractMessage, hnext] at h
  obtain ⟨⟨m₁, p₁⟩, h₁, hrest₁⟩ := exists_of_bind (x := IMsg.extractExtensions b b.length w _ 4) h
  obtain ⟨⟨m₂, p₂⟩, h₂, hrest₂⟩ := exists_of_bind (x := MsgReq.extractFields b m₁ p₁) hrest₁
  obtain ⟨⟨m₃, p₃⟩, h₃, htail⟩ := exists_of_bind (x := MsgReq.extractByteEnables b m₂ p₂) hrest₂
  obtain ⟨htype, hop₁, -⟩ := extractExtensions_keeps h₁
  have hchain : MsgReq.isReqChain m₁.attr = true := decide_eq_true (hop₁.trans hop)
  obtain rfl : m₁ = m₂ := by
    rw [MsgReq.extractFields] at h₂
    obtain ⟨v, -, h₂⟩ := exists_of_bind h₂
    rw [if_pos hchain] at h₂
    exact (Prod.mk.inj (Except.ok.inj h₂)).1
  have hattr : m₃.attr = m₁.attr := by
    rw [MsgReq.extractByteEnables, if_pos hchain] at h₃
    split at h₃
    · exact parseByteEnables_attr h₃
    · rw [(Prod.mk.inj (Except.ok.inj h₃)).1]
  rw [parseTail_attr htail, hattr]
  exact ⟨htype, hchain⟩

/-- So it does not come back. -/
theorem not_chain_of_roundTrips {k : TLPHdr} (h : ReqBuildable m) (hhdr : HeaderFits m.attr) (hreq : m.attr.msgType = Msg.typeReq)
    (ha : AddressFits m.address) (hr : RoundTrips k m) : MsgReq.isReqChain m.attr = false := by
  by_contra hne
  have hchain : m.attr.reqOp = Msg.reqChain := of_decide_eq_true (Bool.not_eq_false _ ▸ hne)
  obtain ⟨e, w, w₁, w₂, t, rfl, hle, he, hw, hc⟩ := h.created hreq ha
  have ht := h.length (MsgReq.hasByteEnables m.attr)
  have hlen : (w :: (e ++ ([w₁, w₂] ++ m.tailWords (MsgReq.hasByteEnables m.attr)))).length < 32 := by
    simp only [List.length_cons, List.length_append, List.length_nil]
    omega
  refine not_roundTrips_of_error hhdr hc (Nat.succ_pos _) hlen (fun m' hx => ⟨.reported, ?_⟩) hr
  rw [extracted_eq hw.msgType hw.msgLen, TLPAssembler.newMsg, if_pos (show (m.common _).attr.msgType = _ from hreq)] at hx
  obtain ⟨htype, hop⟩ := chain_of_extracted (getNext_bytesOf (k := 0) rfl) (by rw [hw.reqOp, widen_byte, hchain]) hx
  exact setup_chain (htype.trans hreq) hop

/-- A message that is not chained stays as it is. -/
theorem setup_req {m' : IMsg} (htype : m'.attr.msgType = Msg.typeReq) (hop : MsgReq.isReqChain m'.attr = false) (l : List IMsg) :
    TLPAssembler.setup l m' = .ok m' := by
  have hsnp : MsgSnpReq.isSnpReqChain m'.attr = false := by
    rw [MsgSnpReq.isSnpReqChain, htype]
    rfl
  rw [TLPAssembler.setup, if_neg (by rw [hop]; simp), if_neg (by rw [hsnp]; simp)]

theorem brought_req (m' : IMsg) (n : ℕ) (hreq : m.attr.msgType = Msg.typeReq) (hattr : m'.attr = (m.reqHead n).attr) (haddr : m'.address = m.address) :
    Brought m m' ↔ NoExtensions m.attr ∧ m'.write = m.write ∧
      (m.write = true → m'.dataLength = m.dataLength ∧ ∀ i < m.dataLength, m'.data i = m.data i ∧ m'.enabled i = m.enabled i) := by
  have hmay : m.mayHaveData = true := by
    rw [IMsg.mayHaveData, hreq]
    rfl
  constructor
  · intro h
    exact ⟨(part_reqHead (n := n) hreq).1 (hattr ▸ h.attr), h.write hmay, h.data hmay⟩
  · rintro ⟨hno, hw, hd⟩
    exact ⟨by rw [hattr]; exact (part_reqHead hreq).2 hno, fun _ => haddr, fun _ => hw, fun _ => hd⟩

@[simp] theorem isReqChain_reqHead (m : IMsg) (n : ℕ) : MsgReq.isReqChain (m.reqHead n).attr = MsgReq.isReqChain m.attr := rfl

@[simp] theorem hasByteEnables_reqHead (m : IMsg) (n : ℕ) : MsgReq.hasByteEnables (m.reqHead n).attr = MsgReq.hasByteEnables m.attr := rfl

@[simp] theorem getSize_reqHead (m : IMsg) (n : ℕ) : MsgReq.getSize (m.reqHead n).attr = MsgReq.getSize m.attr := rfl

/-- The opcodes that may have data. -/
def mayHaveTail (a : Attr) : Bool := MsgReq.isWrite a || MsgReq.isAtomic a || MsgReq.isReqChain a

@[simp] theorem mayHaveTail_reqHead (m : IMsg) (n : ℕ) : mayHaveTail (m.reqHead n).attr = mayHaveTail m.attr := by
  have hop : (m.reqHead n).attr.reqOp = m.attr.reqOp := rfl
  rw [mayHaveTail, mayHaveTail, isReqChain_reqHead, MsgReq.isWrite, MsgReq.isWrite, MsgReq.isAtomic, MsgReq.isAtomic, hop]

/-- **The header of a request is read back**, and its tail is left. -/
theorem ReqBuildable.extracted (h : ReqBuildable m) (hreq : m.attr.msgType = Msg.typeReq) (ha : AddressFits m.address)
    (hchain : MsgReq.isReqChain m.attr = false) : ∃ l, l.length ≤ 4 ∧ 0 < l.length ∧
      createMsg m = .ok (l ++ m.tailWords (MsgReq.hasByteEnables m.attr)) ∧ ∀ t n, t = m.tailWords (MsgReq.hasByteEnables m.attr) →
        n = l.length + t.length → extracted m (l ++ t) =
          MsgReq.extractByteEnables (bytesOf (l ++ t)) (m.reqHead n) (4 * l.length) >>= fun p =>
            p.1.parseTail (bytesOf (l ++ t)) (mayHaveTail p.1.attr) p.2 := by
  obtain ⟨e, w, w₁, w₂, t, ht, hle, he, hw, hc⟩ := h.created hreq ha
  have hassoc : w :: (e ++ [w₁, w₂]) ++ t = w :: (e ++ ([w₁, w₂] ++ t)) := by rw [List.cons_append, List.append_assoc]
  have hlen : (w :: (e ++ [w₁, w₂])).length = e.length + 3 := by
    simp only [List.length_cons, List.length_append, List.length_nil]
  refine ⟨w :: (e ++ [w₁, w₂]), by omega, Nat.succ_pos _, ?_, fun t' n ht' hn => ?_⟩
  · rw [← ht, hassoc, hc]
  · obtain rfl : t' = t := ht'.trans ht.symm
    rw [hlen] at hn ⊢
    rw [hassoc, hn]
    exact req_extracted hreq hchain h.ext1 he hw

/-- The data of a message is extracted. -/
theorem parseTail_data {m₀ : IMsg} {l : List (BitVec 32)} (hd : IsDataLength m.dataLength)
    (hlen : m₀.attr.msgLen.toNat = l.length + m.dataLength / 4) :
    m₀.parseTail (bytesOf (l ++ arrayWords m.data (m.dataLength / 4))) true (4 * l.length) =
      .ok (withTail (bytesOf (l ++ arrayWords m.data (m.dataLength / 4))) (4 * l.length) m₀) := by
  have hbytes := length_bytesOf_data l hd
  have hle : 0 < m.dataLength ∧ m.dataLength ≤ cachelineSz := by
    unfold cachelineSz
    rcases hd with hd | hd | hd | hd <;> omega
  rw [parseTail_eq (by rw [length_bytesOf, List.length_append, length_arrayWords, hlen]) (by omega) (by omega), if_neg (by omega),
    if_pos (by omega)]

/-- It is the data that was sent. -/
theorem withTail_data (m₀ : IMsg) (l : List (BitVec 32)) (hd : IsDataLength m.dataLength) :
    (withTail (bytesOf (l ++ arrayWords m.data (m.dataLength / 4))) (4 * l.length) m₀).dataLength = m.dataLength ∧
      ∀ i < m.dataLength, (withTail (bytesOf (l ++ arrayWords m.data (m.dataLength / 4))) (4 * l.length) m₀).data i = m.data i := by
  have hbytes := length_bytesOf_data l hd
  refine ⟨by show _ - _ = _; omega, fun i hi => ?_⟩
  exact (if_pos (by omega)).trans (getD_data l hd hi)

/-- A message that has no more words has no data. -/
theorem parseTail_nil {m₀ : IMsg} {l : List (BitVec 32)} (may : Bool) (hlen : m₀.attr.msgLen.toNat = l.length) :
    m₀.parseTail (bytesOf l) may (4 * l.length) = .ok m₀ := by
  have hz : m₀.getTailSize (4 * l.length) = 0 := by
    rw [getTailSize_eq hlen le_rfl, Nat.sub_self]
  rw [IMsg.parseTail, if_pos hz]

/-- A request without byte enables comes back. -/
theorem req_roundTrips_of_noByteEnables {k : TLPHdr} (h : ReqBuildable m) (hhdr : HeaderFits m.attr) (hreq : m.attr.msgType = Msg.typeReq)
    (ha : AddressFits m.address) (hchain : MsgReq.isReqChain m.attr = false) (hbe : MsgReq.hasByteEnables m.attr = false) :
    RoundTrips k m ↔ NoExtensions m.attr := by
  obtain ⟨l, hle, hpos, hc, hx⟩ := h.extracted hreq ha hchain
  have htl := h.length (MsgReq.hasByteEnables m.attr)
  by_cases hw : m.write = true
  · obtain ⟨hd, hmay⟩ := h.data hw
    have ht : m.tailWords (MsgReq.hasByteEnables m.attr) = arrayWords m.data (m.dataLength / 4) := by
      rw [IMsg.tailWords, if_pos hw, hbe, if_neg Bool.false_ne_true, List.nil_append]
    have hlen : (l ++ arrayWords m.data (m.dataLength / 4)).length = l.length + m.dataLength / 4 := by
      rw [List.length_append, length_arrayWords]
    have hlt : l.length + m.dataLength / 4 < 32 := by
      rw [ht, length_arrayWords] at htl
      omega
    have hx := hx _ (l.length + m.dataLength / 4) ht.symm (by rw [length_arrayWords])
    rw [MsgReq.extractByteEnables, isReqChain_reqHead, hchain, if_neg Bool.false_ne_true, hasByteEnables_reqHead, hbe,
      if_neg Bool.false_ne_true, ok_bind] at hx
    dsimp only at hx
    rw [mayHaveTail_reqHead, show mayHaveTail m.attr = true from hmay, parseTail_data hd (toNat_msgLen_common hlt)] at hx
    rw [ht] at hc
    rw [roundTrips_iff_of_extracted hhdr hc (by omega) (by omega) hx (setup_req hreq hchain) (by rw [hlen]; exact toNat_msgLen_common hlt),
      brought_req (withTail _ _ (m.reqHead _)) (l.length + m.dataLength / 4) hreq rfl rfl]
    obtain ⟨hdl, hdata⟩ := withTail_data (m.reqHead (l.length + m.dataLength / 4)) l hd
    refine and_iff_left ⟨hw.symm, fun _ => ⟨hdl, fun i hi => ⟨hdata i hi, ?_⟩⟩⟩
    rw [h.enabled hbe hw i hi]
    rfl
  · have ht : m.tailWords (MsgReq.hasByteEnables m.attr) = [] := if_neg hw
    have hlt : l.length < 32 := by omega
    have hx := hx _ l.length ht.symm rfl
    rw [MsgReq.extractByteEnables, isReqChain_reqHead, hchain, if_neg Bool.false_ne_true, hasByteEnables_reqHead, hbe,
      if_neg Bool.false_ne_true, ok_bind] at hx
    dsimp only at hx
    rw [List.append_nil, parseTail_nil _ (toNat_msgLen_common hlt)] at hx
    rw [ht, List.append_nil] at hc
    rw [roundTrips_iff_of_extracted hhdr hc hpos hlt hx (setup_req hreq hchain) (toNat_msgLen_common hlt),
      brought_req (m.reqHead l.length) l.length hreq rfl rfl]
    exact and_iff_left ⟨(Bool.eq_false_iff.2 hw).symm, fun hw' => absurd hw' hw⟩

/-- How far `m_pos` gets over the byte enables of `n` bytes: not at all if they are in one byte. -/
def beSkip (n : ℕ) : ℕ := ((n - 1) / 8 + 3) / 4 * 4

/-- The byte enables are passed exactly if their words are as many. -/
theorem beSkip_eq {d : ℕ} (hn : IsDataLength n) (hd : IsDataLength d) : beSkip n = 4 * ((d + 31) / 32) ↔ 8 < n ∧ (n + 31) / 32 = (d + 31) / 32 := by
  unfold beSkip
  rcases hn with rfl | rfl | rfl | rfl <;> rcases hd with rfl | rfl | rfl | rfl <;> decide

theorem getSize_cases (a : Attr) : MsgReq.getSize a = .error .reported ∨ ∃ n, IsDataLength n ∧ MsgReq.getSize a = .ok n := by
  unfold MsgReq.getSize
  split
  · exact .inl rfl
  · exact .inr ⟨64, by unfold IsDataLength; decide, rfl⟩
  · exact .inr ⟨32, by unfold IsDataLength; decide, rfl⟩
  · exact .inr ⟨16, by unfold IsDataLength; decide, rfl⟩
  · exact .inr ⟨8, by unfold IsDataLength; decide, rfl⟩

/-- What `ParseByteEnables` makes of the bytes from `pos` on. -/
def withByteEnables (b : List (BitVec 8)) (n pos : ℕ) (m₀ : IMsg) : IMsg :=
  { m₀ with
    byteEnable := fun i => if i < n ∧ (b.getD (pos + i / 8) 0).getLsbD (i % 8) then byteEnabled else 0
    byteEnableLength := cachelineSz }

@[simp] theorem attr_withByteEnables (b : List (BitVec 8)) (n pos : ℕ) (m₀ : IMsg) : (withByteEnables b n pos m₀).attr = m₀.attr := rfl

theorem parseByteEnables_eq {b : List (BitVec 8)} {m₀ : IMsg} {j : ℕ} (hn : IsDataLength n) (hb : 4 * j + 12 ≤ b.length) :
    m₀.parseByteEnables b n (4 * j) = .ok (withByteEnables b n (4 * j) m₀, 4 * j + beSkip n) := by
  have hle : 0 < n ∧ n ≤ 64 := by
    rcases hn with rfl | rfl | rfl | rfl <;> decide
  have hpos : (4 * j + (n - 1) / 8 + 3) / 4 * 4 = 4 * j + beSkip n := by
    unfold beSkip
    omega
  rw [IMsg.parseByteEnables, if_pos ⟨hle.2, fun i hi => by omega⟩, hpos]
  rfl

theorem enabled_withByteEnables {b : List (BitVec 8)} {pos i : ℕ} (m₀ : IMsg) (hi : i < 64) :
    (withByteEnables b n pos m₀).enabled i = (decide (i < n) && (b.getD (pos + i / 8) 0).getLsbD (i % 8)) := by
  have hmod : i % 64 = i := Nat.mod_eq_of_lt hi
  have hone : ¬ 0#8 = byteEnabled := by decide
  simp only [IMsg.enabled, withByteEnables, cachelineSz, hmod]
  by_cases h : i < n
  · cases hbit : (b.getD (pos + i / 8) 0).getLsbD (i % 8) with
    | true => simp [h]
    | false => simp [hone]
  · simp [h, hone]

@[simp] theorem enabled_withTail (b : List (BitVec 8)) (pos : ℕ) (m₀ : IMsg) (i : ℕ) : (withTail b pos m₀).enabled i = m₀.enabled i := rfl

/-- **Data comes behind byte enables exactly if these are passed**, and no byte beyond the size is enabled. -/
theorem withTail_byteEnables_iff (m₀ : IMsg) (l : List (BitVec 32)) (hn : IsDataLength n) (hd : IsDataLength m.dataLength) {b : List (BitVec 8)}
    (hb : b = bytesOf (l ++ (m.placeBE ++ arrayWords m.data (m.dataLength / 4)))) {m' : IMsg}
    (hm' : m' = withTail b (4 * l.length + beSkip n) (withByteEnables b n (4 * l.length) m₀)) :
    (m'.dataLength = m.dataLength ∧ ∀ i < m.dataLength, m'.data i = m.data i ∧ m'.enabled i = m.enabled i) ↔
      8 < n ∧ (n + 31) / 32 = (m.dataLength + 31) / 32 ∧ ∀ i < m.dataLength, n ≤ i → m.enabled i = false := by
  have hbytes : b.length = 4 * (l.length + (m.dataLength + 31) / 32) + m.dataLength := by
    rw [hb, ← List.append_assoc, length_bytesOf_data _ hd, List.length_append, length_placeBE]
  have hen : ∀ i < m.dataLength, m'.enabled i = (decide (i < n) && m.enabled i) := fun i hi => by
    have hi64 : i < 64 := by rcases hd with hd | hd | hd | hd <;> omega
    rw [hm', enabled_withTail, enabled_withByteEnables _ hi64, hb, ← List.append_assoc, getD_byteEnable l _ hi]
  have hdl : m'.dataLength = b.length - (4 * l.length + beSkip n) := by
    rw [hm']
    rfl
  constructor
  · rintro ⟨hlen, hall⟩
    have hpass : beSkip n = 4 * ((m.dataLength + 31) / 32) := by
      have hone : 4 ≤ 4 * ((m.dataLength + 31) / 32) ∧ 8 ≤ m.dataLength := by
        rcases hd with hd | hd | hd | hd <;> omega
      omega
    obtain ⟨hlt, hwords⟩ := (beSkip_eq hn hd).1 hpass
    refine ⟨hlt, hwords, fun i hi hni => ?_⟩
    rw [← (hall i hi).2, hen i hi, decide_eq_false (by omega), Bool.false_and]
  · rintro ⟨hlt, hwords, hdis⟩
    have hpass := (beSkip_eq hn hd).2 ⟨hlt, hwords⟩
    have hpos : 4 * l.length + beSkip n = 4 * (l ++ m.placeBE).length := by
      rw [List.length_append, length_placeBE]
      omega
    obtain ⟨hlen, hdata⟩ := withTail_data (withByteEnables b n (4 * l.length) m₀) (l ++ m.placeBE) hd
    rw [List.append_assoc, ← hb, ← hpos, ← hm'] at hlen hdata
    refine ⟨hlen, fun i hi => ⟨hdata i hi, ?_⟩⟩
    rw [hen i hi]
    by_cases hni : i < n
    · rw [decide_eq_true hni, Bool.true_and]
    · rw [decide_eq_false hni, hdis i hi (Nat.not_lt.1 hni), Bool.false_and]

/-- A request with byte enables comes back if they are passed. -/
theorem req_roundTrips_of_byteEnables {k : TLPHdr} (h : ReqBuildable m) (hhdr : HeaderFits m.attr) (hreq : m.attr.msgType = Msg.typeReq)
    (ha : AddressFits m.address) (hchain : MsgReq.isReqChain m.attr = false) (hbe : MsgReq.hasByteEnables m.attr = true) :
    RoundTrips k m ↔ ByteEnablesCarried m ∧ NoExtensions m.attr := by
  obtain ⟨l, hle, hpos, hc, hx⟩ := h.extracted hreq ha hchain
  have hw := h.write hbe
  obtain ⟨hd, hmay⟩ := h.data hw
  have ht : m.tailWords (MsgReq.hasByteEnables m.attr) = m.placeBE ++ arrayWords m.data (m.dataLength / 4) := by
    rw [IMsg.tailWords, if_pos hw, if_pos hbe]
  have htl := h.length (MsgReq.hasByteEnables m.attr)
  have hlen : (l ++ (m.placeBE ++ arrayWords m.data (m.dataLength / 4))).length = l.length + (m.dataLength + 31) / 32 + m.dataLength / 4 := by
    rw [List.length_append, List.length_append, length_placeBE, length_arrayWords, Nat.add_assoc]
  have hlt : l.length + (m.dataLength + 31) / 32 + m.dataLength / 4 < 32 := by
    rw [ht, List.length_append, length_placeBE, length_arrayWords] at htl
    omega
  have hx := hx _ (l.length + (m.dataLength + 31) / 32 + m.dataLength / 4) ht.symm
    (by rw [List.length_append, length_placeBE, length_arrayWords, Nat.add_assoc])
  rw [ht] at hc
  have hb : (bytesOf (l ++ (m.placeBE ++ arrayWords m.data (m.dataLength / 4)))).length =
      4 * (l.length + (m.dataLength + 31) / 32 + m.dataLength / 4) := by rw [length_bytesOf, hlen]
  rw [MsgReq.extractByteEnables, isReqChain_reqHead, hchain, if_neg Bool.false_ne_true, hasByteEnables_reqHead, hbe, if_pos rfl,
    getSize_reqHead] at hx
  rcases getSize_cases m.attr with hsize | ⟨n, hn, hsize⟩
  · rw [hsize, error_bind, error_bind] at hx
    refine iff_of_false (not_roundTrips_of_error hhdr hc (by omega) (by omega) fun m' hm' => ?_) ?_
    · rw [hx] at hm'
      cases hm'
    · rintro ⟨⟨n, hn, -⟩, -⟩
      rw [hsize] at hn
      cases hn
  · rw [hsize, ok_bind] at hx
    have hge : 4 * l.length + 12 ≤ (bytesOf (l ++ (m.placeBE ++ arrayWords m.data (m.dataLength / 4)))).length := by
      rw [hb]
      rcases hd with hd | hd | hd | hd <;> omega
    have hskip : beSkip n ≤ 8 ∧ beSkip n % 4 = 0 := by
      unfold beSkip
      rcases hn with rfl | rfl | rfl | rfl <;> decide
    have hbe4 : 4 * ((m.dataLength + 31) / 32) ≤ 8 ∧ 4 * (m.dataLength / 4) = m.dataLength := by
      rcases hd with hd | hd | hd | hd <;> omega
    rw [parseByteEnables_eq hn hge, ok_bind] at hx
    dsimp only at hx
    rw [attr_withByteEnables, mayHaveTail_reqHead, show mayHaveTail m.attr = true from hmay,
      parseTail_eq (by rw [hb]; exact congrArg _ (toNat_msgLen_common hlt).symm) (by omega) (by omega), if_neg (by omega)] at hx
    by_cases hfit : (bytesOf (l ++ (m.placeBE ++ arrayWords m.data (m.dataLength / 4)))).length - (4 * l.length + beSkip n) ≤ cachelineSz
    · rw [if_pos hfit] at hx
      rw [roundTrips_iff_of_extracted hhdr hc (by omega) (by omega) hx (setup_req hreq hchain) (by rw [hlen]; exact toNat_msgLen_common hlt),
        brought_req (withTail _ _ (withByteEnables _ _ _ (m.reqHead _))) _ hreq rfl rfl, and_comm]
      refine and_congr_left fun _ => ?_
      have hiff := withTail_byteEnables_iff (m.reqHead (l.length + (m.dataLength + 31) / 32 + m.dataLength / 4)) l hn hd rfl rfl
      constructor
      · rintro ⟨-, hbrought⟩
        exact ⟨n, hsize, hiff.1 (hbrought hw)⟩
      · rintro ⟨n', hn', hcarried⟩
        obtain rfl : n = n' := by
          rw [hsize] at hn'
          exact Except.ok.inj hn'
        exact ⟨hw.symm, fun _ => hiff.2 hcarried⟩
    · rw [if_neg hfit] at hx
      refine iff_of_false (not_roundTrips_of_error hhdr hc (by omega) (by omega) fun m' hm' => ?_) ?_
      · rw [hx] at hm'
        cases hm'
      · rintro ⟨⟨n', hn', hlt8, hwords, -⟩, -⟩
        obtain rfl : n = n' := by
          rw [hsize] at hn'
          exact Except.ok.inj hn'
        have hskip' := (beSkip_eq hn hd).2 ⟨hlt8, hwords⟩
        unfold cachelineSz at hfit
        rcases hd with hd | hd | hd | hd <;> omega

/-- **What a request needs to come back**, and nothing else. -/
theorem req_roundTrips_iff {k : TLPHdr} (h : ReqBuildable m) (hhdr : HeaderFits m.attr) (hreq : m.attr.msgType = Msg.typeReq) :
    RoundTrips k m ↔ ReqCarried m := by
  constructor
  · intro hr
    have ha := addressFits_of_req hreq hr
    have hchain := not_chain_of_roundTrips h hhdr hreq ha hr
    cases hbe : MsgReq.hasByteEnables m.attr with
    | true =>
      obtain ⟨hcarried, hno⟩ := (req_roundTrips_of_byteEnables h hhdr hreq ha hchain hbe).1 hr
      exact ⟨ha, hchain, fun _ => hcarried, hno⟩
    | false => exact ⟨ha, hchain, fun h' => (Bool.false_ne_true (hbe.symm.trans h')).elim,
        (req_roundTrips_of_noByteEnables h hhdr hreq ha hchain hbe).1 hr⟩
  · rintro ⟨ha, hchain, hcarried, hno⟩
    cases hbe : MsgReq.hasByteEnables m.attr with
    | true => exact (req_roundTrips_of_byteEnables h hhdr hreq ha hchain hbe).2 ⟨hcarried hbe, hno⟩
    | false => exact (req_roundTrips_of_noByteEnables h hhdr hreq ha hchain hbe).2 hno

end Requests

end LibSystemCTLM.Ccix
