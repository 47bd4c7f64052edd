import LibSystemCTLM.Ccix.Requests

/-!
# What CCIX messages bring

Requests are treated in the module before. A response comes back unless its byte enables are not
found, which are looked for behind a tail of more than a cacheline only (`rsp_roundTrips_iff`); a
snoop request has the conditions of a request, and loses its `SnpCast` (`snp_roundTrips_iff`).
Credits always come back (`misc_roundTrips`); of a credited misc message `MiscCredit` and `MiscOp`
have a bit in common, and the size of the payload is lost (`miscCredited_roundTrips_iff`). Together
these are all messages (`msg_roundTrips_iff`).
-/

namespace LibSystemCTLM.Ccix

open Foundation

section Messages

variable {m m' : IMsg} {w w₁ w₂ : BitVec 32} {k : TLPHdr} {n : ℕ}

/-! ### Responses -/

/-- What the header and the fields of a response say. -/
def IMsg.rspHead (m : IMsg) (n : ℕ) : IMsg where
  attr := { tgtID := m.attr.tgtID, srcID := m.attr.srcID, msgCredit := m.attr.msgCredit, msgType := m.attr.msgType, msgLen := BitVec.ofNat 8 n
            txnID := m.attr.txnID, respAttr := m.attr.respAttr, respOp := m.attr.respOp }

/-- What the port can build of a response. -/
structure RspBuildable (m : IMsg) : Prop where
  txnID : m.attr.txnID.toNat < 2 ^ 12
  respAttr : m.attr.respAttr.toNat < 2 ^ 3
  respOp : m.attr.respOp.toNat < 2 ^ 3
  data : m.write = true → IsDataLength m.dataLength
  /-- All bytes are enabled if the response has no byte enables. -/
  enabled : MsgRsp.isSnpRespDataPtl m.attr = false → m.write = true → ∀ i < m.dataLength, m.enabled i = true

/-- What a response needs to come back: byte enables are found only behind a tail of more than a cacheline. -/
structure RspCarried (m : IMsg) : Prop where
  byteEnables : MsgRsp.isSnpRespDataPtl m.attr = true → m.write = true → m.dataLength = cachelineSz
  noExtensions : NoExtensions m.attr

/-- What is read in the word of a response of `n` words. -/
structure RspWord (m : IMsg) (n : ℕ) (w : BitVec 32) : Prop where
  ext : IMsg.ext.get w = 0
  msgType : IMsg.msgType.get w = m.attr.msgType.setWidth 32
  msgLen : IMsg.msgLen.get w = BitVec.ofNat 32 n
  txnID : MsgRsp.txnID.get w = m.attr.txnID.setWidth 32
  respAttr : MsgRsp.respAttr.get w = m.attr.respAttr.setWidth 32
  respOp : MsgRsp.respOp.get w = m.attr.respOp.setWidth 32

theorem RspBuildable.length (h : RspBuildable m) (be : Bool) : (m.tailWords be).length ≤ 18 :=
  length_tailWords h.data be

/-- Whether the message is a response. -/
abbrev IsRsp (a : Attr) : Prop := a.msgType = Msg.typeResp ∨ a.msgType = Msg.typeSnpResp

theorem IsRsp.ne (h : IsRsp m.attr) : m.attr.msgType ≠ Msg.typeReq ∧ m.attr.msgType ≠ Msg.typeSnpReq := by
  rcases h with h | h <;> rw [h] <;> decide

theorem RspBuildable.created (h : RspBuildable m) (hrsp : IsRsp m.attr) : ∃ w, RspWord m (1 + (m.tailWords (MsgRsp.isSnpRespDataPtl m.attr)).length) w ∧
    createMsg m = .ok ([w] ++ m.tailWords (MsgRsp.isSnpRespDataPtl m.attr)) := by
  have htl := h.length (MsgRsp.isSnpRespDataPtl m.attr)
  have htype : m.attr.msgType.toNat < 2 ^ 4 := by
    rcases hrsp with hrsp | hrsp <;> rw [hrsp] <;> decide
  obtain ⟨w₀, w, hw₀, hc, hset⟩ := firstWord_ok (n := 1 + (m.tailWords (MsgRsp.isSnpRespDataPtl m.attr)).length)
    (l := [(IMsg.ext, 0), (IMsg.msgType, m.attr.msgType.setWidth 32)])
    (r := [(MsgRsp.txnID, m.attr.txnID.setWidth 32), (MsgRsp.rsvd0_0, 0), (MsgRsp.respAttr, m.attr.respAttr.setWidth 32), (MsgRsp.rsvd0_1, 0),
      (MsgRsp.respOp, m.attr.respOp.setWidth 32)]) (by omega)
    (by
      simp only [List.cons_append, List.nil_append, List.forall_mem_cons]
      exact ⟨fits_zero, fits_widen htype, fits_ofNat (show _ < 32 by omega),
        fits_widen h.txnID, fits_zero, fits_widen h.respAttr, fits_zero,
        fits_widen h.respOp, List.forall_mem_nil _⟩)
    rfl (by decide : List.Pairwise BitField.Apart
      [IMsg.ext, IMsg.msgType, IMsg.msgLen, MsgRsp.txnID, MsgRsp.rsvd0_0, MsgRsp.respAttr, MsgRsp.rsvd0_1, MsgRsp.respOp])
  simp only [Carries, List.cons_append, List.nil_append, List.forall_mem_cons] at hc hw₀
  obtain ⟨h1, h2, h3, h4, -, h5, -, h6, -⟩ := hc
  refine ⟨w, ⟨h1, h2, h3, h4, h5, h6⟩, ?_⟩
  rw [createMsg, if_neg hrsp.ne.1, if_neg hrsp.ne.2, if_pos hrsp, MsgRsp.create, hw₀, tail_eq h.data, ok_bind, ok_bind, hset _ (by omega)]
  rfl

theorem rsp_extractMessage {b : List (BitVec 8)} {m₀ m₁ : IMsg} {p₁ : ℕ} (hnext : getNext b 0 = .ok w)
    (hexts : IMsg.extractExtensions b b.length w { m₀ with attr := { m₀.attr with
      txnID := (MsgRsp.txnID.get w).setWidth 16, respAttr := (MsgRsp.respAttr.get w).setWidth 8, respOp := (MsgRsp.respOp.get w).setWidth 8 } } 4 = .ok (m₁, p₁)) :
    MsgRsp.extractMessage b m₀ = MsgRsp.extractByteEnables b m₁ p₁ >>= fun p => p.1.parseTail b true p.2 := by
  rw [MsgRsp.extractMessage, hnext, ok_bind]
  dsimp only
  rw [hexts, ok_bind]

/-- **The fields of a response are read back.** -/
theorem rsp_extracted (hrsp : IsRsp m.attr) (hw : RspWord m n w) (t : List (BitVec 32)) : extracted m ([w] ++ t) =
    MsgRsp.extractByteEnables (bytesOf ([w] ++ t)) (m.rspHead n) 4 >>= fun p => p.1.parseTail (bytesOf ([w] ++ t)) true p.2 := by
  rw [List.singleton_append, extracted_eq hw.msgType hw.msgLen, TLPAssembler.newMsg, if_neg (show ¬ (m.common n).attr.msgType = _ from hrsp.ne.1),
    if_neg (show ¬ (m.common n).attr.msgType = _ from hrsp.ne.2), if_pos (show (m.common n).attr.msgType = _ ∨ (m.common n).attr.msgType = _ from hrsp)]
  refine rsp_extractMessage (getNext_bytesOf (k := 0) rfl) ?_
  rw [hw.txnID, hw.respAttr, hw.respOp, widen_half, widen_byte, widen_byte, extractExtensions_none hw.ext]
  rfl

/-- A response is never chained. -/
theorem setup_rsp (hrsp : IsRsp m'.attr) (l : List IMsg) : TLPAssembler.setup l m' = .ok m' := by
  have hsnp : MsgSnpReq.isSnpReqChain m'.attr = false := by
    rw [MsgSnpReq.isSnpReqChain, decide_eq_false hrsp.ne.2, Bool.false_and]
  rw [TLPAssembler.setup, if_neg fun h => hrsp.ne.1 h.1, if_neg (by rw [hsnp]; simp)]

theorem part_rspHead (hrsp : IsRsp m.attr) : (m.rspHead n).attr.part = m.attr.part ↔ NoExtensions m.attr := by
  have hrsp' : IsRsp (m.rspHead n).attr := hrsp
  unfold Attr.part
  rw [if_neg hrsp.ne.1, if_neg hrsp.ne.2, if_pos hrsp, if_neg hrsp'.ne.1, if_neg hrsp'.ne.2, if_pos hrsp']
  constructor
  · intro h
    exact ⟨(congrArg Attr.user h).symm, (congrArg Attr.respErr h).symm, (congrArg Attr.poison0 h).symm, (congrArg Attr.poison1 h).symm⟩
  · rintro ⟨hu, hr, hp, hq⟩
    rw [hu, hr, hp, hq]
    rfl

theorem brought_rsp (m' : IMsg) (n : ℕ) (hrsp : IsRsp m.attr) (hattr : m'.attr = (m.rspHead n).attr) :
    Brought m m' ↔ NoExtensions m.attr ∧ m'.write = m.write ∧
      (m.write = true → m'.dataLength = m.dataLength ∧ ∀ i < m.dataLength, m'.data i = m.data i ∧ m'.enabled i = m.enabled i) := by
  have hmay : m.mayHaveData = true := by
    rcases hrsp with hrsp | hrsp <;> rw [IMsg.mayHaveData, hrsp] <;> decide
  have haddr : m.hasAddress = false := by
    rcases hrsp with hrsp | hrsp <;> rw [IMsg.hasAddress, hrsp] <;> decide
  constructor
  · intro h
    exact ⟨(part_rspHead (n := n) hrsp).1 (hattr ▸ h.attr), h.write hmay, h.data hmay⟩
  · rintro ⟨hno, hw, hd⟩
    exact ⟨by rw [hattr]; exact (part_rspHead hrsp).2 hno, fun h => (Bool.false_ne_true (haddr.symm.trans h)).elim, fun _ => hw, fun _ => hd⟩

/-- A response without data comes back, -/
theorem rsp_roundTrips_of_noData (h : RspBuildable m) (hhdr : HeaderFits m.attr) (hrsp : IsRsp m.attr) (hw : m.write = false) :
    RoundTrips k m ↔ NoExtensions m.attr := by
  obtain ⟨w, hword, hc⟩ := h.created hrsp
  have ht : m.tailWords (MsgRsp.isSnpRespDataPtl m.attr) = [] := if_neg (by rw [hw]; simp)
  rw [ht] at hc hword
  have hlen : (m.rspHead 1).attr.msgLen.toNat = ([w] : List (BitVec 32)).length := toNat_msgLen_common (by decide)
  have hx := rsp_extracted hrsp (show RspWord m 1 w from hword) []
  have hnil : (m.rspHead 1).getTailSize 4 = 0 := getTailSize_eq (n := 1) hlen le_rfl
  have htail := parseTail_nil (l := [w]) true hlen
  rw [MsgRsp.extractByteEnables, hnil, if_neg (Nat.not_lt.2 (Nat.zero_le _)), ok_bind, List.append_nil] at hx
  rw [List.append_nil] at hc
  replace hx := hx.trans htail
  rw [roundTrips_iff_of_extracted hhdr hc (by simp) (by simp) hx (setup_rsp hrsp) hlen, brought_rsp (m.rspHead _) _ hrsp rfl]
  exact and_iff_left ⟨hw.symm, fun hw' => (Bool.false_ne_true (hw.symm.trans hw')).elim⟩

/-- one with data but no byte enables does, -/
theorem rsp_roundTrips_of_noByteEnables (h : RspBuildable m) (hhdr : HeaderFits m.attr) (hrsp : IsRsp m.attr) (hw : m.write = true)
    (hbe : MsgRsp.isSnpRespDataPtl m.attr = false) : RoundTrips k m ↔ NoExtensions m.attr := by
  obtain ⟨w, hword, hc⟩ := h.created hrsp
  have hd := h.data hw
  have hle : m.dataLength ≤ 64 ∧ 4 * (m.dataLength / 4) = m.dataLength := by
    rcases hd with hd | hd | hd | hd <;> omega
  have ht : m.tailWords (MsgRsp.isSnpRespDataPtl m.attr) = arrayWords m.data (m.dataLength / 4) := by
    rw [IMsg.tailWords, if_pos hw, hbe, if_neg Bool.false_ne_true, List.nil_append]
  rw [ht, length_arrayWords] at hword
  rw [ht] at hc
  have hlen : ([w] ++ arrayWords m.data (m.dataLength / 4)).length = 1 + m.dataLength / 4 := by
    rw [List.length_append, length_arrayWords]
    rfl
  have hmsgLen : (m.rspHead (1 + m.dataLength / 4)).attr.msgLen.toNat = 1 + m.dataLength / 4 := toNat_msgLen_common (by omega)
  have hx := rsp_extracted hrsp hword (arrayWords m.data (m.dataLength / 4))
  rw [MsgRsp.extractByteEnables, getTailSize_eq hmsgLen (by omega), if_neg (by unfold cachelineSz; omega), ok_bind] at hx
  replace hx := hx.trans (parseTail_data (l := [w]) hd hmsgLen)
  rw [roundTrips_iff_of_extracted hhdr hc (by omega) (by omega) hx (setup_rsp hrsp) (by rw [hlen]; exact hmsgLen),
    brought_rsp (withTail _ _ (m.rspHead _)) _ hrsp rfl]
  obtain ⟨hdl, hdata⟩ := withTail_data (m.rspHead (1 + m.dataLength / 4)) [w] hd
  refine and_iff_left ⟨hw.symm, fun _ => ⟨hdl, fun i hi => ⟨hdata i hi, ?_⟩⟩⟩
  rw [h.enabled hbe hw i hi]
  rfl

/-- and one with byte enables if they are found. -/
theorem rsp_roundTrips_of_byteEnables (h : RspBuildable m) (hhdr : HeaderFits m.attr) (hrsp : IsRsp m.attr) (hw : m.write = true)
    (hbe : MsgRsp.isSnpRespDataPtl m.attr = true) : RoundTrips k m ↔ m.dataLength = cachelineSz ∧ NoExtensions m.attr := by
  obtain ⟨w, hword, hc⟩ := h.created hrsp
  have hd := h.data hw
  have ht : m.tailWords (MsgRsp.isSnpRespDataPtl m.attr) = m.placeBE ++ arrayWords m.data (m.dataLength / 4) := by
    rw [IMsg.tailWords, if_pos hw, if_pos hbe]
  have hlen : ([w] ++ (m.placeBE ++ arrayWords m.data (m.dataLength / 4))).length = 1 + ((m.dataLength + 31) / 32 + m.dataLength / 4) := by
    rw [List.length_append, List.length_append, length_placeBE, length_arrayWords]
    rfl
  rw [ht, List.length_append, length_placeBE, length_arrayWords] at hword
  rw [ht] at hc
  have hlt : 1 + ((m.dataLength + 31) / 32 + m.dataLength / 4) < 32 := by
    rcases hd with hd | hd | hd | hd <;> omega
  have hmsgLen : (m.rspHead (1 + ((m.dataLength + 31) / 32 + m.dataLength / 4))).attr.msgLen.toNat =
      1 + ((m.dataLength + 31) / 32 + m.dataLength / 4) := toNat_msgLen_common hlt
  have hx := rsp_extracted hrsp hword (m.placeBE ++ arrayWords m.data (m.dataLength / 4))
  have hb : (bytesOf ([w] ++ (m.placeBE ++ arrayWords m.data (m.dataLength / 4)))).length =
      4 * (1 + ((m.dataLength + 31) / 32 + m.dataLength / 4)) := by rw [length_bytesOf, hlen]
  rw [MsgRsp.extractByteEnables, getTailSize_eq hmsgLen (by omega)] at hx
  by_cases hfull : m.dataLength = 64
  · have hn : IsDataLength cachelineSz := .inr (.inr (.inr rfl))
    have hskip : beSkip cachelineSz = 8 := by decide
    rw [if_pos (by unfold cachelineSz; omega), parseByteEnables_eq (j := 1) hn (by omega), ok_bind] at hx
    dsimp only at hx
    rw [parseTail_eq (by rw [hb, attr_withByteEnables, hmsgLen]) (by omega) (by omega), if_neg (by omega),
      if_pos (by rw [hb, hskip, hfull]; decide)] at hx
    rw [roundTrips_iff_of_extracted hhdr hc (by omega) (by omega) hx (setup_rsp hrsp) (by rw [hlen]; exact hmsgLen),
      brought_rsp (withTail _ _ (withByteEnables _ _ _ (m.rspHead _))) _ hrsp rfl, and_comm]
    refine and_congr_left fun _ => iff_of_true ⟨hw.symm, fun _ => ?_⟩ hfull
    have hcarried : 8 < cachelineSz ∧ (cachelineSz + 31) / 32 = (m.dataLength + 31) / 32 ∧
        ∀ i < m.dataLength, cachelineSz ≤ i → m.enabled i = false := by
      refine ⟨by decide, by rw [hfull]; decide, fun i hi hge => ?_⟩
      unfold cachelineSz at hge
      omega
    exact (withTail_byteEnables_iff _ [w] hn hd rfl rfl).2 hcarried
  · have hshort : m.dataLength ≤ 32 ∧ (m.dataLength + 31) / 32 = 1 ∧ 4 * (m.dataLength / 4) = m.dataLength := by
      rcases hd with hd | hd | hd | hd <;> omega
    rw [if_neg (by unfold cachelineSz; omega), ok_bind] at hx
    dsimp only at hx
    rw [parseTail_eq (by rw [hb, hmsgLen]) (by omega) (by decide), if_neg (by omega), if_pos (by unfold cachelineSz; omega)] at hx
    rw [roundTrips_iff_of_extracted hhdr hc (by omega) (by omega) hx (setup_rsp hrsp) (by rw [hlen]; exact hmsgLen),
      brought_rsp (withTail _ _ (m.rspHead _)) _ hrsp rfl]
    refine iff_of_false ?_ fun h => hfull h.1
    rintro ⟨-, -, hbrought⟩
    have hdl : (bytesOf ([w] ++ (m.placeBE ++ arrayWords m.data (m.dataLength / 4)))).length - 4 = m.dataLength := (hbrought hw).1
    omega

/-- **What a response needs to come back**, and nothing else. -/
theorem rsp_roundTrips_iff (h : RspBuildable m) (hhdr : HeaderFits m.attr) (hrsp : IsRsp m.attr) : RoundTrips k m ↔ RspCarried m := by
  cases hw : m.write with
  | false =>
    rw [rsp_roundTrips_of_noData h hhdr hrsp hw]
    exact ⟨fun hno => ⟨fun _ hw' => (Bool.false_ne_true (hw.symm.trans hw')).elim, hno⟩, fun h => h.noExtensions⟩
  | true =>
    cases hbe : MsgRsp.isSnpRespDataPtl m.attr with
    | false =>
      rw [rsp_roundTrips_of_noByteEnables h hhdr hrsp hw hbe]
      exact ⟨fun hno => ⟨fun hbe' => (Bool.false_ne_true (hbe.symm.trans hbe')).elim, hno⟩, fun h => h.noExtensions⟩
    | true =>
      rw [rsp_roundTrips_of_byteEnables h hhdr hrsp hw hbe]
      exact ⟨fun h => ⟨fun _ _ => h.1, h.2⟩, fun h => ⟨h.byteEnables hbe hw, h.noExtensions⟩⟩

/-! ### Snoop requests -/

/-- What the header and the fields of a snoop request say. -/
def IMsg.snpHead (m : IMsg) (n : ℕ) : IMsg where
  address := m.address
  attr := { tgtID := m.attr.tgtID, srcID := m.attr.srcID, msgCredit := m.attr.msgCredit, msgType := m.attr.msgType, msgLen := BitVec.ofNat 8 n
            txnID := m.attr.txnID, dataRet := m.attr.dataRet, snpOp := m.attr.snpOp, secure := m.attr.secure }

/-- What the port can build of a snoop request. -/
structure SnpBuildable (m : IMsg) : Prop where
  txnID : m.attr.txnID.toNat < 2 ^ 12
  snpCast : m.attr.snpCast.toNat < 2 ^ 2
  snpOp : m.attr.snpOp.toNat < 2 ^ 4
  address : m.address.toNat % 2 ^ 6 = 0

/-- What a snoop request needs to come back: `SnpCast` is sent, but not extracted. -/
structure SnpCarried (m : IMsg) : Prop where
  address : AddressFits m.address
  notChained : m.attr.snpOp ≠ Msg.snpChain
  snpCast : m.attr.snpCast = 0
  noExtensions : NoExtensions m.attr

/-- What is read in the words of a snoop request. -/
structure SnpWords (m : IMsg) (w w₁ w₂ : BitVec 32) : Prop where
  ext : IMsg.ext.get w = 0
  msgType : IMsg.msgType.get w = m.attr.msgType.setWidth 32
  msgLen : IMsg.msgLen.get w = BitVec.ofNat 32 3
  txnID : MsgSnpReq.txnID.get w = m.attr.txnID.setWidth 32
  dr : MsgSnpReq.dr.get w = ofBool m.attr.dataRet
  snpOp : MsgSnpReq.snpOp.get w = m.attr.snpOp.setWidth 32
  addressHigh : MsgSnpReq.address_51_32.get w₁ = m.addressHigh
  addressLow : MsgSnpReq.address_31_6.get w₂ = (m.address >>> 6).setWidth 32
  ns : MsgSnpReq.ns.get w₂ = ofBool !m.attr.secure

theorem SnpBuildable.notRequired (h : SnpBuildable m) : m.extType1Required = false := by
  rw [Bool.eq_false_iff, ne_eq, extType1Required_iff]
  exact fun hne => hne h.address

theorem SnpBuildable.created (h : SnpBuildable m) (hsnp : m.attr.msgType = Msg.typeSnpReq) (ha : AddressFits m.address) :
    ∃ w w₁ w₂, SnpWords m w w₁ w₂ ∧ createMsg m = .ok [w, w₁, w₂] := by
  obtain ⟨hhigh, hlow⟩ := fits_of_addressFits ha
  have htype : m.attr.msgType.toNat < 2 ^ 4 := by rw [hsnp]; decide
  have hne : m.attr.msgType ≠ Msg.typeReq := by rw [hsnp]; decide
  obtain ⟨w₀, w, hw₀, hc, hset⟩ := firstWord_ok (n := 3)
    (l := [(IMsg.ext, ofBool m.extType0Required), (IMsg.msgType, m.attr.msgType.setWidth 32)])
    (r := [(MsgSnpReq.txnID, m.attr.txnID.setWidth 32), (MsgSnpReq.rsvd0_0, 0), (MsgSnpReq.snpCast, m.attr.snpCast.setWidth 32),
      (MsgSnpReq.dr, ofBool m.attr.dataRet), (MsgSnpReq.snpOp, m.attr.snpOp.setWidth 32)]) (by decide)
    (by
      simp only [List.cons_append, List.nil_append, List.forall_mem_cons]
      exact ⟨fits_ofBool _, fits_widen htype, fits_ofNat (by decide),
        fits_widen h.txnID, fits_zero, fits_widen h.snpCast,
        fits_ofBool _, fits_widen h.snpOp, List.forall_mem_nil _⟩)
    rfl (by decide : List.Pairwise BitField.Apart
      [IMsg.ext, IMsg.msgType, IMsg.msgLen, MsgSnpReq.txnID, MsgSnpReq.rsvd0_0, MsgSnpReq.snpCast, MsgSnpReq.dr, MsgSnpReq.snpOp])
  obtain ⟨w₁, hw₁, hc₁⟩ := word_ok [(MsgSnpReq.rsvd2_0, 0), (MsgSnpReq.address_51_32, m.addressHigh)]
    (by
      simp only [List.forall_mem_cons]
      exact ⟨fits_zero, fits_val hhigh, List.forall_mem_nil _⟩)
    rfl (by decide : List.Pairwise BitField.Apart [MsgSnpReq.rsvd2_0, MsgSnpReq.address_51_32])
  obtain ⟨w₂, hw₂, hc₂⟩ := word_ok [(MsgSnpReq.address_31_6, (m.address >>> 6).setWidth 32), (MsgSnpReq.rsvd3_0, 0),
      (MsgSnpReq.ns, ofBool !m.attr.secure), (MsgSnpReq.rsvd3_1, 0)]
    (by
      simp only [List.forall_mem_cons]
      exact ⟨fits_val hlow, fits_zero, fits_ofBool _, fits_zero,
        List.forall_mem_nil _⟩)
    rfl (by decide : List.Pairwise BitField.Apart [MsgSnpReq.address_31_6, MsgSnpReq.rsvd3_0, MsgSnpReq.ns, MsgSnpReq.rsvd3_1])
  simp only [Carries, List.cons_append, List.nil_append, List.forall_mem_cons] at hc hc₁ hc₂ hw₀
  obtain ⟨h1, h2, h3, h4, -, -, h5, h6, -⟩ := hc
  obtain ⟨-, h7, -⟩ := hc₁
  obtain ⟨h8, -, h9, -⟩ := hc₂
  rw [extType0Required_of_fits ha] at h1 hw₀
  refine ⟨w, w₁, w₂, ⟨h1, h2, h3, h4, h5, h6, h7, h8, h9⟩, ?_⟩
  rw [createMsg, if_neg hne, if_pos hsnp, MsgSnpReq.create, IMsg.placeExt0, extType0Required_of_fits ha, if_neg Bool.false_ne_true, hw₀, ok_bind,
    ok_bind, h.notRequired, hw₁, hw₂]
  exact hset _ rfl

theorem snp_extractMessage {b : List (BitVec 8)} {m₀ m₁ : IMsg} {p₁ : ℕ} (hnext : getNext b 0 = .ok w)
    (hexts : IMsg.extractExtensions b b.length w { m₀ with attr := { m₀.attr with
      txnID := (MsgSnpReq.txnID.get w).setWidth 16, dataRet := decide (MsgSnpReq.dr.get w ≠ 0),
      snpOp := (MsgSnpReq.snpOp.get w).setWidth 8 } } 4 = .ok (m₁, p₁)) :
    MsgSnpReq.extractMessage b m₀ = MsgSnpReq.extractFields b m₁ p₁ := by
  rw [MsgSnpReq.extractMessage, hnext, ok_bind]
  dsimp only
  rw [hexts, ok_bind]

/-- What is extracted before the fields. -/
theorem snp_extracted (hsnp : m.attr.msgType = Msg.typeSnpReq) (hw : SnpWords m w w₁ w₂) : extracted m [w, w₁, w₂] =
    MsgSnpReq.extractFields (bytesOf [w, w₁, w₂]) { m.common 3 with attr := { (m.common 3).attr with
      txnID := m.attr.txnID, dataRet := m.attr.dataRet, snpOp := m.attr.snpOp } } 4 := by
  have hne : m.attr.msgType ≠ Msg.typeReq := by rw [hsnp]; decide
  have hdr : decide (ofBool m.attr.dataRet ≠ 0) = m.attr.dataRet := by cases m.attr.dataRet <;> decide
  rw [extracted_eq hw.msgType hw.msgLen, TLPAssembler.newMsg, if_neg (show ¬ (m.common 3).attr.msgType = _ from hne),
    if_pos (show (m.common 3).attr.msgType = _ from hsnp)]
  refine snp_extractMessage (getNext_bytesOf (k := 0) rfl) ?_
  rw [hw.txnID, hw.dr, hw.snpOp, widen_half, widen_byte, hdr, extractExtensions_none hw.ext]

/-- **The fields of a snoop request are read back.** -/
theorem snp_extractFields (h : SnpBuildable m) (hsnp : m.attr.msgType = Msg.typeSnpReq) (hchain : m.attr.snpOp ≠ Msg.snpChain)
    (hw : SnpWords m w w₁ w₂) : extracted m [w, w₁, w₂] = .ok (m.snpHead 3) := by
  have hnot : MsgSnpReq.isSnpReqChain { (m.common 3).attr with
      txnID := m.attr.txnID, dataRet := m.attr.dataRet, snpOp := m.attr.snpOp } = false := by
    rw [MsgSnpReq.isSnpReqChain, decide_eq_false hchain, Bool.and_false]
  have hnext₁ : getNext (bytesOf [w, w₁, w₂]) 4 = .ok w₁ := getNext_bytesOf (k := 1) rfl
  have hnext₂ : getNext (bytesOf [w, w₁, w₂]) (4 + 4) = .ok w₂ := getNext_bytesOf (k := 2) rfl
  have haddr := address_joined (lowBits_of_not_required h.notRequired)
  rw [snp_extracted hsnp hw, MsgSnpReq.extractFields, hnext₁, ok_bind, if_neg (by rw [hnot]; simp), hnext₂, ok_bind, hw.ns, hw.addressHigh,
    hw.addressLow, secure_back]
  rw [← IMsg.addressHigh] at haddr
  exact congrArg Except.ok (congrArg (fun a => { m.snpHead 3 with address := a }) haddr)

theorem part_snpHead (hsnp : m.attr.msgType = Msg.typeSnpReq) :
    (m.snpHead n).attr.part = m.attr.part ↔ m.attr.snpCast = 0 ∧ NoExtensions m.attr := by
  have hne : m.attr.msgType ≠ Msg.typeReq := by rw [hsnp]; decide
  have hsnp' : (m.snpHead n).attr.msgType = Msg.typeSnpReq := hsnp
  have hne' : (m.snpHead n).attr.msgType ≠ Msg.typeReq := hne
  unfold Attr.part
  rw [if_neg hne, if_pos hsnp, if_neg hne', if_pos hsnp']
  constructor
  · intro h
    exact ⟨(congrArg Attr.snpCast h).symm, (congrArg Attr.user h).symm, (congrArg Attr.respErr h).symm, (congrArg Attr.poison0 h).symm,
      (congrArg Attr.poison1 h).symm⟩
  · rintro ⟨hs, hu, hr, hp, hq⟩
    rw [hs, hu, hr, hp, hq]
    rfl

/-- A snoop request with another address is not made. -/
theorem addressFits_of_snp (hsnp : m.attr.msgType = Msg.typeSnpReq) (hr : RoundTrips k m) : AddressFits m.address := by
  have hne : m.attr.msgType ≠ Msg.typeReq := by rw [hsnp]; decide
  cases hc : createMsg m with
  | error f => exact absurd hr (not_roundTrips_of_create hc)
  | ok ws =>
    rw [createMsg, if_neg hne, if_pos hsnp, MsgSnpReq.create] at hc
    obtain ⟨w, -, hc⟩ := exists_of_bind hc
    obtain ⟨e₀, he₀, hc⟩ := exists_of_bind hc
    cases hreq : m.extType1Required with
    | true =>
      rw [hreq] at hc
      cases hc
    | false =>
      rw [hreq] at hc
      obtain ⟨w₁, hw₁, hc⟩ := exists_of_bind hc
      obtain ⟨w₂, hw₂, -⟩ := exists_of_bind hc
      have hhigh := fits_of_word (by simp only [List.forall_mem_cons]; exact ⟨by decide, by decide, List.forall_mem_nil _⟩) hw₁
        (MsgSnpReq.address_51_32, m.addressHigh) (by simp)
      have hlow := fits_of_word
        (by simp only [List.forall_mem_cons]; exact ⟨by decide, by decide, by decide, by decide, List.forall_mem_nil _⟩) hw₂
        (MsgSnpReq.address_31_6, (m.address >>> 6).setWidth 32) (by simp)
      exact addressFits_of_ok he₀ hhigh hlow

/-- A chain lacks a snoop request before it. -/
theorem not_snpChain_of_roundTrips (h : SnpBuildable m) (hhdr : HeaderFits m.attr) (hsnp : m.attr.msgType = Msg.typeSnpReq)
    (ha : AddressFits m.address) (hr : RoundTrips k m) : m.attr.snpOp ≠ Msg.snpChain := by
  intro hchain
  obtain ⟨w, w₁, w₂, hw, hc⟩ := h.created hsnp ha
  have hne : m.attr.msgType ≠ Msg.typeReq := by rw [hsnp]; decide
  have hnext₁ : getNext (bytesOf [w, w₁, w₂]) 4 = .ok w₁ := getNext_bytesOf (k := 1) rfl
  have hisChain : MsgSnpReq.isSnpReqChain { (m.common 3).attr with
      txnID := m.attr.txnID, dataRet := m.attr.dataRet, snpOp := m.attr.snpOp } = true := by
    rw [MsgSnpReq.isSnpReqChain, decide_eq_true hchain, Bool.and_true]
    exact decide_eq_true hsnp
  refine not_roundTrips_of_error hhdr hc (by simp) (by simp) (fun m' hx => ⟨.reported, ?_⟩) hr
  rw [snp_extracted hsnp hw, MsgSnpReq.extractFields, hnext₁, ok_bind, if_pos hisChain] at hx
  obtain rfl := Except.ok.inj hx
  rw [TLPAssembler.setup, if_neg fun h => hne h.1, if_pos hisChain]
  rfl

/-- **What a snoop request needs to come back**, and nothing else. -/
theorem snp_roundTrips_iff (h : SnpBuildable m) (hhdr : HeaderFits m.attr) (hsnp : m.attr.msgType = Msg.typeSnpReq) :
    RoundTrips k m ↔ SnpCarried m := by
  have hiff : AddressFits m.address → m.attr.snpOp ≠ Msg.snpChain → (RoundTrips k m ↔ m.attr.snpCast = 0 ∧ NoExtensions m.attr) := by
    intro ha hchain
    obtain ⟨w, w₁, w₂, hw, hc⟩ := h.created hsnp ha
    have hne : m.attr.msgType ≠ Msg.typeReq := by rw [hsnp]; decide
    have hset : ∀ l, TLPAssembler.setup l (m.snpHead 3) = .ok (m.snpHead 3) := fun l => by
      have hnot : MsgSnpReq.isSnpReqChain (m.snpHead 3).attr = false := by
        rw [MsgSnpReq.isSnpReqChain, show decide ((m.snpHead 3).attr.snpOp = Msg.snpChain) = false from decide_eq_false hchain, Bool.and_false]
      rw [TLPAssembler.setup, if_neg fun h => hne h.1, if_neg (by rw [hnot]; simp)]
    rw [roundTrips_iff_of_extracted hhdr hc (by simp) (by simp) (snp_extractFields h hsnp hchain hw) hset
      (toNat_msgLen_common (n := 3) (by decide)), ← part_snpHead (n := 3) hsnp]
    have hno : m.mayHaveData = false := by
      rw [IMsg.mayHaveData, hsnp]
      rfl
    exact ⟨fun hb => hb.attr, fun hp => ⟨hp, fun _ => rfl, fun h => (Bool.false_ne_true (hno.symm.trans h)).elim,
      fun h => (Bool.false_ne_true (hno.symm.trans h)).elim⟩⟩
  constructor
  · intro hr
    have ha := addressFits_of_snp hsnp hr
    have hchain := not_snpChain_of_roundTrips h hhdr hsnp ha hr
    obtain ⟨hcast, hno⟩ := (hiff ha hchain).1 hr
    exact ⟨ha, hchain, hcast, hno⟩
  · rintro ⟨ha, hchain, hcast, hno⟩
    exact (hiff ha hchain).2 ⟨hcast, hno⟩

/-! ### Credits and other messages -/

/-- What the port can build of an uncredited misc message. -/
structure MiscBuildable (m : IMsg) : Prop where
  miscOp : m.attr.miscOp = Msg.nop ∨ m.attr.miscOp = Msg.creditGrant ∨ m.attr.miscOp = Msg.creditReturn
  dataCredit : m.attr.dataCredit.toNat < 2 ^ 8
  reqCredit : m.attr.reqCredit.toNat < 2 ^ 8
  miscCredit : m.attr.miscCredit.toNat < 2 ^ 8
  snpCredit : m.attr.snpCredit.toNat < 2 ^ 8

theorem setup_misc (hreq : m'.attr.msgType ≠ Msg.typeReq) (hsnp : m'.attr.msgType ≠ Msg.typeSnpReq) (l : List IMsg) :
    TLPAssembler.setup l m' = .ok m' := by
  have hnot : MsgSnpReq.isSnpReqChain m'.attr = false := by
    rw [MsgSnpReq.isSnpReqChain, decide_eq_false hsnp, Bool.false_and]
  rw [TLPAssembler.setup, if_neg fun h => hreq h.1, if_neg (by rw [hnot]; simp)]

/-- Misc messages have neither an address nor data. -/
theorem brought_misc (hmisc : m.attr.msgType = Msg.typeMiscUnCredited ∨ m.attr.msgType = Msg.typeMiscCredited) :
    Brought m m' ↔ m'.attr.part = m.attr.part := by
  have haddr : m.hasAddress = false := by
    rcases hmisc with h | h <;> rw [IMsg.hasAddress, h] <;> decide
  have hno : m.mayHaveData = false := by
    rcases hmisc with h | h <;> rw [IMsg.mayHaveData, h] <;> decide
  exact ⟨fun hb => hb.attr, fun hp => ⟨hp, fun h => (Bool.false_ne_true (haddr.symm.trans h)).elim,
    fun h => (Bool.false_ne_true (hno.symm.trans h)).elim, fun h => (Bool.false_ne_true (hno.symm.trans h)).elim⟩⟩

/-- `ExtractMiscOp` reads all but the highest bit of the opcode. -/
theorem extractMiscOp_eq {op : BitVec 8} (h : MsgNOP.miscOp.get w = op.setWidth 32) (hop : op.toNat < 8) :
    (getField 16 3 w).setWidth 8 = op := by
  have hget : w.toNat / 2 ^ 16 % 2 ^ 4 = op.toNat := by
    rw [← toNat_widen (by decide) op, ← h, BitField.get, toNat_getField _ _ (by decide)]
    rfl
  apply BitVec.eq_of_toNat_eq
  rw [BitVec.toNat_setWidth, toNat_getField _ _ (by decide)]
  omega

theorem MiscBuildable.lt (h : MiscBuildable m) : m.attr.miscOp.toNat < 8 := by
  rcases h.miscOp with h | h | h <;> rw [h] <;> decide

theorem ne_of_misc (htype : m.attr.msgType = Msg.typeMiscUnCredited) : m.attr.msgType ≠ Msg.typeReq ∧ m.attr.msgType ≠ Msg.typeSnpReq ∧
    ¬ IsRsp m.attr ∧ m.attr.msgType.toNat < 2 ^ 4 := by
  unfold IsRsp
  rw [htype]
  decide

/-- A `NOP` comes back, -/
theorem nop_roundTrips (h : MiscBuildable m) (hhdr : HeaderFits m.attr) (htype : m.attr.msgType = Msg.typeMiscUnCredited)
    (hop : m.attr.miscOp = Msg.nop) : RoundTrips k m := by
  obtain ⟨hreq, hsnp, hrsp, hfit⟩ := ne_of_misc htype
  have hlt : m.attr.miscOp.toNat < 2 ^ 4 := lt_trans h.lt (by decide)
  obtain ⟨w₀, w, hw₀, hc, hset⟩ := firstWord_ok (n := 1)
    (l := [(IMsg.ext, 0), (IMsg.msgType, m.attr.msgType.setWidth 32)])
    (r := [(MsgNOP.miscOp, m.attr.miscOp.setWidth 32), (MsgNOP.rsvd0_1, 0)]) (by decide)
    (by
      simp only [List.cons_append, List.nil_append, List.forall_mem_cons]
      exact ⟨fits_zero, fits_widen hfit, fits_ofNat (by decide),
        fits_widen hlt, fits_zero, List.forall_mem_nil _⟩)
    rfl (by decide : List.Pairwise BitField.Apart [IMsg.ext, IMsg.msgType, IMsg.msgLen, MsgNOP.miscOp, MsgNOP.rsvd0_1])
  have hword := (word_zero [(IMsg.ext, 0), (IMsg.msgType, m.attr.msgType.setWidth 32), (IMsg.msgLen, 0)]
    [(MsgNOP.miscOp, m.attr.miscOp.setWidth 32), (MsgNOP.rsvd0_1, 0)] MsgNOP.rsvd0_0).trans hw₀
  simp only [Carries, List.cons_append, List.nil_append, List.forall_mem_cons] at hc hword
  obtain ⟨-, hmsgType, hmsgLen, hmiscOp, -, -⟩ := hc
  have hcreated : createMsg m = .ok [w] := by
    rw [createMsg, if_neg hreq, if_neg hsnp, if_neg hrsp, if_pos htype, if_pos hop, MsgNOP.create, hword]
    exact hset [] rfl
  have hx : extracted m [w] = .ok { m.common 1 with attr := { (m.common 1).attr with miscOp := m.attr.miscOp } } := by
    rw [extracted_eq hmsgType hmsgLen, TLPAssembler.newMsg, if_neg (show ¬ (m.common 1).attr.msgType = _ from hreq),
      if_neg (show ¬ (m.common 1).attr.msgType = _ from hsnp), if_neg (show ¬ IsRsp (m.common 1).attr from hrsp),
      if_pos (show (m.common 1).attr.msgType = _ from htype), extractMiscOp_eq hmiscOp h.lt, if_pos hop, MsgNOP.extractMessage,
      getNext_bytesOf (k := 0) rfl, ok_bind, hmiscOp, widen_byte]
    rfl
  rw [roundTrips_iff_of_extracted hhdr hcreated (by simp) (by simp) hx (setup_misc hreq hsnp) (toNat_msgLen_common (n := 1) (by decide)),
    brought_misc (.inl htype)]
  unfold Attr.part
  simp only [IMsg.common, if_neg hreq, if_neg hsnp, if_neg hrsp, if_pos htype, if_pos hop]

/-- and so do credits. -/
theorem credit_roundTrips (h : MiscBuildable m) (hhdr : HeaderFits m.attr) (htype : m.attr.msgType = Msg.typeMiscUnCredited)
    (hop : m.attr.miscOp ≠ Msg.nop) : RoundTrips k m := by
  obtain ⟨hreq, hsnp, hrsp, hfit⟩ := ne_of_misc htype
  have hlt : m.attr.miscOp.toNat < 2 ^ 4 := lt_trans h.lt (by decide)
  have hcredit := h.miscOp.resolve_left hop
  obtain ⟨w₀, w, hw₀, hc, hset⟩ := firstWord_ok (n := 2)
    (l := [(IMsg.ext, 0), (IMsg.msgType, m.attr.msgType.setWidth 32)])
    (r := [(MsgCrdEx.miscOp, m.attr.miscOp.setWidth 32), (MsgCrdEx.dataCredit, m.attr.dataCredit), (MsgCrdEx.reqCredit, m.attr.reqCredit)])
    (by decide)
    (by
      simp only [List.cons_append, List.nil_append, List.forall_mem_cons]
      exact ⟨fits_zero, fits_widen hfit, fits_ofNat (by decide),
        fits_widen hlt, fits_val h.dataCredit, fits_val h.reqCredit,
        List.forall_mem_nil _⟩)
    rfl (by decide : List.Pairwise BitField.Apart
      [IMsg.ext, IMsg.msgType, IMsg.msgLen, MsgCrdEx.miscOp, MsgCrdEx.dataCredit, MsgCrdEx.reqCredit])
  obtain ⟨w₁, hw₁, hc₁⟩ := word_ok
    [(MsgCrdEx.rsvd1_0, 0), (MsgCrdEx.miscCredit, m.attr.miscCredit), (MsgCrdEx.snpCredit, m.attr.snpCredit)]
    (by
      simp only [List.forall_mem_cons]
      exact ⟨fits_zero, fits_val h.miscCredit, fits_val h.snpCredit,
        List.forall_mem_nil _⟩)
    rfl (by decide : List.Pairwise BitField.Apart [MsgCrdEx.rsvd1_0, MsgCrdEx.miscCredit, MsgCrdEx.snpCredit])
  have hword := (word_zero [(IMsg.ext, 0), (IMsg.msgType, m.attr.msgType.setWidth 32), (IMsg.msgLen, 0)]
    [(MsgCrdEx.miscOp, m.attr.miscOp.setWidth 32), (MsgCrdEx.dataCredit, m.attr.dataCredit), (MsgCrdEx.reqCredit, m.attr.reqCredit)]
    MsgCrdEx.rsvd0_0).trans hw₀
  simp only [Carries, List.cons_append, List.nil_append, List.forall_mem_cons] at hc hc₁ hword
  obtain ⟨-, hmsgType, hmsgLen, hmiscOp, hdata, hreqCredit, -⟩ := hc
  obtain ⟨-, hmisc, hsnpCredit, -⟩ := hc₁
  have hcreated : createMsg m = .ok [w, w₁] := by
    rw [createMsg, if_neg hreq, if_neg hsnp, if_neg hrsp, if_pos htype, if_neg hop, if_pos hcredit, MsgCrdEx.create, hword, ok_bind, hw₁]
    exact hset _ rfl
  have hx : extracted m [w, w₁] = .ok { m.common 2 with attr := { (m.common 2).attr with
      miscOp := m.attr.miscOp, dataCredit := m.attr.dataCredit, reqCredit := m.attr.reqCredit, miscCredit := m.attr.miscCredit,
      snpCredit := m.attr.snpCredit } } := by
    rw [extracted_eq hmsgType hmsgLen, TLPAssembler.newMsg, if_neg (show ¬ (m.common 2).attr.msgType = _ from hreq),
      if_neg (show ¬ (m.common 2).attr.msgType = _ from hsnp), if_neg (show ¬ IsRsp (m.common 2).attr from hrsp),
      if_pos (show (m.common 2).attr.msgType = _ from htype), extractMiscOp_eq hmiscOp h.lt, if_neg hop, if_pos hcredit,
      MsgCrdEx.extractMessage, getNext_bytesOf (k := 0) rfl, ok_bind, show getNext (bytesOf [w, w₁]) 4 = .ok w₁ from getNext_bytesOf (k := 1) rfl,
      ok_bind, hmiscOp, hdata, hreqCredit, hmisc, hsnpCredit, widen_byte]
    rfl
  rw [roundTrips_iff_of_extracted hhdr hcreated (by simp) (by simp) hx (setup_misc hreq hsnp) (toNat_msgLen_common (n := 2) (by decide)),
    brought_misc (.inl htype)]
  unfold Attr.part
  simp only [IMsg.common, if_neg hreq, if_neg hsnp, if_neg hrsp, if_pos htype, if_neg hop]

theorem misc_roundTrips (h : MiscBuildable m) (hhdr : HeaderFits m.attr) (htype : m.attr.msgType = Msg.typeMiscUnCredited) : RoundTrips k m := by
  by_cases hop : m.attr.miscOp = Msg.nop
  · exact nop_roundTrips h hhdr htype hop
  · exact credit_roundTrips h hhdr htype hop

/-- What the port can build of a credited misc message. -/
structure MiscCreditedBuildable (m : IMsg) : Prop where
  miscOp : m.attr.miscOp.toNat < 2 ^ 4
  miscCredit : m.attr.miscCredit.toNat < 2 ^ 3

/-- What a credited misc message needs to come back: the size of a payload is not extracted, and `MiscCredit` and
`MiscOp` have a bit in common. -/
structure MiscCreditedCarried (m : IMsg) : Prop where
  payloadSz : m.attr.payloadSz = 0
  common : m.attr.miscCredit.toNat % 2 = m.attr.miscOp.toNat / 8

/-- What both fields are read as, in a word with both. -/
theorem miscCredited_overlap : ∀ (c : Fin 8) (o : Fin 16),
    (BitVec.ofNat 32 c ||| getField 19 3 (BitVec.ofNat 32 o <<< 16) = BitVec.ofNat 32 c ∧
      getField 16 4 (BitVec.ofNat 32 c <<< 19) ||| BitVec.ofNat 32 o = BitVec.ofNat 32 o) ↔ c.val % 2 = o.val / 8 := by decide

/-- The word of a credited misc message of `n` words. -/
def miscWord (m : IMsg) (n : ℕ) : BitVec 32 :=
  m.attr.msgType.setWidth 32 <<< 27 ||| m.attr.miscCredit <<< 19 ||| m.attr.miscOp.setWidth 32 <<< 16 |||
    MsgMiscCredited.firstBytes m.attr ||| BitVec.ofNat 32 n <<< 22

theorem firstBytes_lt (a : Attr) : (MsgMiscCredited.firstBytes a).toNat < 2 ^ 16 := by
  unfold MsgMiscCredited.firstBytes
  split
  · decide
  · have h₀ := (a.payload 0).isLt
    have h₁ := (a.payload 1).isLt
    rw [BitVec.toNat_or, BitVec.toNat_shiftLeft, toNat_widen (by decide), toNat_widen (by decide), Nat.shiftLeft_eq]
    exact Nat.or_lt_two_pow (by omega) (by omega)

theorem get_miscWord (s w : ℕ) (m : IMsg) (n : ℕ) : getField s w (miscWord m n) = getField s w (m.attr.msgType.setWidth 32 <<< 27) |||
    getField s w (m.attr.miscCredit <<< 19) ||| getField s w (m.attr.miscOp.setWidth 32 <<< 16) |||
    getField s w (MsgMiscCredited.firstBytes m.attr) ||| getField s w (BitVec.ofNat 32 n <<< 22) := by
  rw [miscWord, getField_or, getField_or, getField_or, getField_or]

theorem get_firstBytes (a : Attr) {s w : ℕ} (hs : 16 ≤ s) (hw : w ≤ 64) : getField s w (MsgMiscCredited.firstBytes a) = 0 := by
  have h : getField s w (MsgMiscCredited.firstBytes a <<< 0) = 0 := getField_apart (firstBytes_lt a) hw (.inl (by omega))
  rwa [BitVec.shiftLeft_zero] at h

/-- What is read in the word of a credited misc message. -/
structure MiscCreditedWord (m : IMsg) (n : ℕ) (w : BitVec 32) : Prop where
  msgType : IMsg.msgType.get w = m.attr.msgType.setWidth 32
  msgLen : IMsg.msgLen.get w = BitVec.ofNat 32 n
  miscCredit : MsgMiscCredited.miscCredit.get w = m.attr.miscCredit ||| getField 19 3 (m.attr.miscOp.setWidth 32 <<< 16)
  miscOp : MsgMiscCredited.miscOp.get w = getField 16 4 (m.attr.miscCredit <<< 19) ||| m.attr.miscOp.setWidth 32

theorem MiscCreditedBuildable.read (h : MiscCreditedBuildable m) (htype : m.attr.msgType = Msg.typeMiscCredited) (hn : n < 32) :
    MiscCreditedWord m n (miscWord m n) := by
  have ht : (m.attr.msgType.setWidth 32).toNat < 2 ^ 4 := by rw [toNat_widen (by decide), htype]; decide
  have ho : (m.attr.miscOp.setWidth 32).toNat < 2 ^ 4 := by rw [toNat_widen (by decide)]; exact h.miscOp
  have hc := h.miscCredit
  have hlen : (BitVec.ofNat 32 n).toNat < 2 ^ 5 := by
    rw [BitVec.toNat_ofNat]
    omega
  constructor
  · show getField 27 4 _ = _
    rw [get_miscWord, getField_same ht (by decide), getField_apart hc (by decide) (.inl (by decide)), getField_apart ho (by decide) (.inl (by decide)),
      get_firstBytes _ (by decide) (by decide), getField_apart hlen (by decide) (.inl (by decide))]
    simp
  · show getField 22 5 _ = _
    rw [get_miscWord, getField_apart ht (by decide) (.inr (by decide)), getField_apart hc (by decide) (.inl (by decide)),
      getField_apart ho (by decide) (.inl (by decide)), get_firstBytes _ (by decide) (by decide), getField_same hlen (by decide)]
    simp
  · show getField 19 3 _ = _
    rw [get_miscWord, getField_apart ht (by decide) (.inr (by decide)), getField_same hc (by decide), get_firstBytes _ (by decide) (by decide),
      getField_apart hlen (by decide) (.inr (by decide))]
    simp
  · show getField 16 4 _ = _
    rw [get_miscWord, getField_apart ht (by decide) (.inr (by decide)), getField_same ho (by decide), get_firstBytes _ (by decide) (by decide),
      getField_apart hlen (by decide) (.inr (by decide))]
    simp

/-- The fields are read back if they have their common bit in common. -/
theorem MiscCreditedBuildable.fields_iff (h : MiscCreditedBuildable m) : (m.attr.miscCredit ||| getField 19 3 (m.attr.miscOp.setWidth 32 <<< 16) =
    m.attr.miscCredit ∧ getField 16 4 (m.attr.miscCredit <<< 19) ||| m.attr.miscOp.setWidth 32 = m.attr.miscOp.setWidth 32) ↔
      m.attr.miscCredit.toNat % 2 = m.attr.miscOp.toNat / 8 := by
  have hc : BitVec.ofNat 32 m.attr.miscCredit.toNat = m.attr.miscCredit := BitVec.ofNat_toNat .. |>.trans (BitVec.setWidth_eq _)
  have ho : BitVec.ofNat 32 m.attr.miscOp.toNat = m.attr.miscOp.setWidth 32 := BitVec.ofNat_toNat ..
  have hiff := miscCredited_overlap ⟨_, h.miscCredit⟩ ⟨_, h.miscOp⟩
  dsimp only at hiff
  rwa [hc, ho] at hiff

theorem placePayload_ok (hsz : m.attr.payloadSz ≤ maxDataSz) : ∃ l, MsgMiscCredited.placePayload m.attr = .ok l ∧
    l.length = (m.attr.payloadSz - 2 + 3) / 4 := ⟨_, if_pos hsz, length_arrayWords ..⟩

/-- The fields are set, though not in places of their own. -/
theorem MiscCreditedBuildable.word_ok (h : MiscCreditedBuildable m) (htype : m.attr.msgType = Msg.typeMiscCredited) :
    word [(IMsg.ext, 0), (IMsg.msgType, m.attr.msgType.setWidth 32), (IMsg.msgLen, 0), (MsgMiscCredited.miscCredit, m.attr.miscCredit),
      (MsgMiscCredited.miscOp, m.attr.miscOp.setWidth 32)] =
        .ok (m.attr.msgType.setWidth 32 <<< 27 ||| m.attr.miscCredit <<< 19 ||| m.attr.miscOp.setWidth 32 <<< 16) := by
  have ht : m.attr.msgType.toNat < 2 ^ 4 := by rw [htype]; decide
  rw [word_of_fits]
  · simp [join, IMsg.msgType, MsgMiscCredited.miscCredit, MsgMiscCredited.miscOp, BitVec.or_assoc]
  · simp only [List.forall_mem_cons]
    exact ⟨fits_zero, fits_widen ht, fits_zero, fits_val h.miscCredit,
      fits_widen h.miscOp, List.forall_mem_nil _⟩

/-- A credited misc message is none of the other types. -/
theorem ne_of_miscCredited (htype : m.attr.msgType = Msg.typeMiscCredited) : m.attr.msgType ≠ Msg.typeReq ∧ m.attr.msgType ≠ Msg.typeSnpReq ∧
    ¬ IsRsp m.attr ∧ m.attr.msgType ≠ Msg.typeMiscUnCredited := by
  unfold IsRsp
  rw [htype]
  decide

theorem MiscCreditedBuildable.created (h : MiscCreditedBuildable m) (htype : m.attr.msgType = Msg.typeMiscCredited) {l : List (BitVec 32)}
    (hl : MsgMiscCredited.placePayload m.attr = .ok l) (hlt : l.length < 31) : createMsg m = .ok (miscWord m (l.length + 1) :: l) := by
  obtain ⟨hreq, hsnp, hrsp, hun⟩ := ne_of_miscCredited htype
  rw [createMsg, if_neg hreq, if_neg hsnp, if_neg hrsp, if_neg hun, if_pos htype, MsgMiscCredited.create, h.word_ok htype, ok_bind, hl, ok_bind,
    setMsgLen_of_lt _ hlt]
  rfl

/-- **What a credited misc message needs to come back**, and nothing else. -/
theorem miscCredited_roundTrips_iff (h : MiscCreditedBuildable m) (hhdr : HeaderFits m.attr) (htype : m.attr.msgType = Msg.typeMiscCredited) :
    RoundTrips k m ↔ MiscCreditedCarried m := by
  obtain ⟨hreq, hsnp, hrsp, hun⟩ := ne_of_miscCredited htype
  by_cases hsz : m.attr.payloadSz ≤ maxDataSz
  · obtain ⟨l, hl, hlen⟩ := placePayload_ok hsz
    have hlt : l.length < 31 := by
      unfold maxDataSz at hsz
      omega
    have hc := h.created htype hl hlt
    have hw := h.read htype (show l.length + 1 < 32 by omega)
    have hmsgLen := toNat_msgLen_common (n := l.length + 1) (by omega)
    have htail : (m.common (l.length + 1)).getTailSize 4 = 4 * l.length := by
      rw [getTailSize_eq hmsgLen (by omega)]
      omega
    have hx : extracted m (miscWord m (l.length + 1) :: l) =
        MsgMiscCredited.extractMessage (bytesOf (miscWord m (l.length + 1) :: l)) (m.common (l.length + 1)) := by
      rw [extracted_eq hw.msgType hw.msgLen, TLPAssembler.newMsg, if_neg (show ¬ (m.common _).attr.msgType = _ from hreq),
        if_neg (show ¬ (m.common _).attr.msgType = _ from hsnp), if_neg (show ¬ IsRsp (m.common _).attr from hrsp),
        if_neg (show ¬ (m.common _).attr.msgType = _ from hun), if_pos (show (m.common _).attr.msgType = _ from htype)]
    rw [MsgMiscCredited.extractMessage, getNext_bytesOf (k := 0) rfl, ok_bind, htail] at hx
    by_cases hfit : 4 * l.length + 2 ≤ maxDataSz
    · rw [if_pos ⟨hfit, by rw [length_bytesOf, List.length_cons]; omega⟩] at hx
      rw [roundTrips_iff_of_extracted hhdr hc (Nat.succ_pos _) (by rw [List.length_cons]; omega) hx
        (setup_misc hreq hsnp) hmsgLen, brought_misc (.inr htype)]
      unfold Attr.part
      simp only [IMsg.common, if_neg hreq, if_neg hsnp, if_neg hrsp, if_neg hun, hw.miscCredit, hw.miscOp]
      constructor
      · intro hp
        have hop : (getField 16 4 (m.attr.miscCredit <<< 19) ||| m.attr.miscOp.setWidth 32).setWidth 8 = m.attr.miscOp := congrArg Attr.miscOp hp
        have hlt16 : (getField 16 4 (m.attr.miscCredit <<< 19) ||| m.attr.miscOp.setWidth 32).toNat < 2 ^ 4 := by
          rw [← hw.miscOp]
          exact getField_lt (by decide) _
        have hback : getField 16 4 (m.attr.miscCredit <<< 19) ||| m.attr.miscOp.setWidth 32 = m.attr.miscOp.setWidth 32 := by
          apply BitVec.eq_of_toNat_eq
          rw [toNat_widen (by decide), ← hop, BitVec.toNat_setWidth, hop]
          omega
        exact ⟨(congrArg Attr.payloadSz hp).symm, h.fields_iff.1 ⟨congrArg Attr.miscCredit hp, hback⟩⟩
      · rintro ⟨hz, hcommon⟩
        obtain ⟨h₁, h₂⟩ := h.fields_iff.2 hcommon
        rw [h₁, h₂, widen_byte, hz]
        simp
    · rw [if_neg fun h => hfit h.1] at hx
      refine iff_of_false (not_roundTrips_of_error hhdr hc (Nat.succ_pos _) (by rw [List.length_cons]; omega) fun m' hm' => ?_) fun hcar => ?_
      · rw [hx] at hm'
        cases hm'
      · have hz := hcar.payloadSz
        unfold maxDataSz at hfit
        omega
  · have hc : createMsg m = .error .outside := by
      rw [createMsg, if_neg hreq, if_neg hsnp, if_neg hrsp, if_neg hun, if_pos htype, MsgMiscCredited.create, h.word_ok htype, ok_bind,
        MsgMiscCredited.placePayload, if_neg hsz]
      rfl
    exact iff_of_false (not_roundTrips_of_create hc) fun hcar => hsz (by rw [hcar.payloadSz]; exact Nat.zero_le _)

/-! ### All messages -/

/-- What the port can build. -/
structure Buildable (m : IMsg) : Prop where
  header : HeaderFits m.attr
  type : m.attr.msgType = Msg.typeReq ∨ m.attr.msgType = Msg.typeSnpReq ∨ IsRsp m.attr ∨ m.attr.msgType = Msg.typeMiscUnCredited ∨
    m.attr.msgType = Msg.typeMiscCredited
  req : m.attr.msgType = Msg.typeReq → ReqBuildable m
  snpReq : m.attr.msgType = Msg.typeSnpReq → SnpBuildable m
  rsp : IsRsp m.attr → RspBuildable m
  misc : m.attr.msgType = Msg.typeMiscUnCredited → MiscBuildable m
  miscCredited : m.attr.msgType = Msg.typeMiscCredited → MiscCreditedBuildable m

/-- What a message needs to come back. -/
structure Carried (m : IMsg) : Prop where
  req : m.attr.msgType = Msg.typeReq → ReqCarried m
  snpReq : m.attr.msgType = Msg.typeSnpReq → SnpCarried m
  rsp : IsRsp m.attr → RspCarried m
  miscCredited : m.attr.msgType = Msg.typeMiscCredited → MiscCreditedCarried m

/-- **A message comes back exactly if** it is carried: its address has the bits 63:52 and 39:32 clear, its byte
enables are found, it is not chained, and it has no attributes that are not sent or not extracted. -/
theorem msg_roundTrips_iff (k : TLPHdr) (m : IMsg) (h : Buildable m) : RoundTrips k m ↔ Carried m := by
  rcases h.type with htype | htype | htype | htype | htype
  · have hne : m.attr.msgType ≠ Msg.typeSnpReq ∧ ¬ IsRsp m.attr ∧ m.attr.msgType ≠ Msg.typeMiscCredited := by
      unfold IsRsp
      rw [htype]
      decide
    rw [req_roundTrips_iff (h.req htype) h.header htype]
    exact ⟨fun hc => ⟨fun _ => hc, fun h' => absurd h' hne.1, fun h' => absurd h' hne.2.1, fun h' => absurd h' hne.2.2⟩, fun hc => hc.req htype⟩
  · have hne : m.attr.msgType ≠ Msg.typeReq ∧ ¬ IsRsp m.attr ∧ m.attr.msgType ≠ Msg.typeMiscCredited := by
      unfold IsRsp
      rw [htype]
      decide
    rw [snp_roundTrips_iff (h.snpReq htype) h.header htype]
    exact ⟨fun hc => ⟨fun h' => absurd h' hne.1, fun _ => hc, fun h' => absurd h' hne.2.1, fun h' => absurd h' hne.2.2⟩, fun hc => hc.snpReq htype⟩
  · have hne : m.attr.msgType ≠ Msg.typeMiscCredited := by
      rcases htype with htype | htype <;> rw [htype] <;> decide
    rw [rsp_roundTrips_iff (h.rsp htype) h.header htype]
    exact ⟨fun hc => ⟨fun h' => absurd h' htype.ne.1, fun h' => absurd h' htype.ne.2, fun _ => hc, fun h' => absurd h' hne⟩, fun hc => hc.rsp htype⟩
  · obtain ⟨hreq, hsnp, hrsp, -⟩ := ne_of_misc htype
    have hne : m.attr.msgType ≠ Msg.typeMiscCredited := by rw [htype]; decide
    exact iff_of_true (misc_roundTrips (h.misc htype) h.header htype)
      ⟨fun h' => absurd h' hreq, fun h' => absurd h' hsnp, fun h' => absurd h' hrsp, fun h' => absurd h' hne⟩
  · obtain ⟨hreq, hsnp, hrsp, -⟩ := ne_of_miscCredited htype
    rw [miscCredited_roundTrips_iff (h.miscCredited htype) h.header htype]
    exact ⟨fun hc => ⟨fun h' => absurd h' hreq, fun h' => absurd h' hsnp, fun h' => absurd h' hrsp, fun _ => hc⟩, fun hc => hc.miscCredited htype⟩

end Messages

/-- A `ReadShared` of a line. -/
def readShared (address : BitVec 64) : IMsg where
  attr := { tgtID := 1, srcID := 2, msgType := Msg.typeReq, txnID := 5, reqOp := 0x07, reqAttr := 0x60, secure := true }
  address := address

theorem buildable_readShared {a : BitVec 64} (ha : a.toNat % 2 ^ 6 = 0) : ReqBuildable (readShared a) where
  txnID := by show (5 : BitVec 16).toNat < 2 ^ 12; decide
  qoS := by show (0 : BitVec 8).toNat < 2 ^ 4; decide
  address := .inl ha
  data := fun h => absurd h Bool.false_ne_true
  write := fun h => absurd h (by show ¬ MsgReq.hasByteEnables (readShared 0).attr = true; decide)
  enabled := fun _ h => absurd h Bool.false_ne_true

theorem headerFits_readShared (a : BitVec 64) : HeaderFits (readShared a).attr where
  tgtID := by show (1 : BitVec 8).toNat < 2 ^ 6; decide
  srcID := by show (2 : BitVec 8).toNat < 2 ^ 6; decide
  msgCredit := by show (0 : BitVec 8).toNat < 2 ^ 6; decide

theorem msg_roundTrips_readShared : RoundTrips .opt (readShared 0x80001040) :=
  (msg_roundTrips_iff .opt (readShared 0x80001040)
    ⟨headerFits_readShared _, .inl rfl, fun _ => buildable_readShared (by decide), fun h => absurd h (by decide),
      fun h => absurd h (by unfold IsRsp; decide), fun h => absurd h (by decide), fun h => absurd h (by decide)⟩).2
    ⟨fun _ => ⟨⟨by decide, by decide⟩, by decide, fun h => absurd h (by decide), ⟨rfl, rfl, rfl, rfl⟩⟩, fun h => absurd h (by decide),
      fun h => absurd h (by unfold IsRsp; decide), fun h => absurd h (by decide)⟩

/-- **A line above 4 GiB cannot be read**: the bits 39:32 of its address are taken for the bits 59:52. -/
theorem not_roundTrips_readShared : ¬ RoundTrips .opt (readShared 0x100000000) := by
  intro hr
  have hc := (req_roundTrips_iff (buildable_readShared (by decide)) (headerFits_readShared _) rfl).1 hr
  exact absurd hc.address.2 (by decide)

end LibSystemCTLM.Ccix
