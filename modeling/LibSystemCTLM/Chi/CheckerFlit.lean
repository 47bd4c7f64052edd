import LibSystemCTLM.Chi.FlitRoundTrip

/-!
# The flits of the protocol checker

The checker parses the flits of a port on its own (`ReqFlit`, `RspFlit`, `SnpFlit` and `DatFlit` in
`flits-chi.h`), with the widths and the order of the fields written once more. They are those of the bridge,
and a flit of the bridge is parsed to the values it was made of exactly when its wide fields survive the mask of
`Extract`, which is an `int` here too, for snoops as well (`checker_agrees_iff`).

## Honest scope

`DATA_WIDTH` is the only template argument that the checker has an array of a fixed size for: with more than
64 lanes `ExtractData` writes behind it, and there is no flit.
-/

namespace LibSystemCTLM.Chi

open Foundation

/-! ### Requests -/

/-- A parsed request. -/
structure ReqFlit where
  qoS : BitVec 8
  tgtID : BitVec 16
  srcID : BitVec 16
  txnID : BitVec 8
  returnNID_StashNID : BitVec 16
  stashNIDValid_Endian : Bool
  returnTxnID : BitVec 8
  opcode : BitVec 8
  size : BitVec 32
  address : BitVec 64
  nonSecure : Bool
  likelyShared : Bool
  allowRetry : Bool
  order : BitVec 8
  pCrdType : BitVec 8
  allocate : Bool
  cacheable : Bool
  deviceMemory : Bool
  earlyWrAck : Bool
  snpAttr : Bool
  lpid : BitVec 16
  excl_SnoopMe : Bool
  expCompAck : Bool
  traceTag : Bool
  rsvdc : BitVec 32

namespace ReqFlit

/-- `FLIT_WIDTH`. -/
def flitWidth (c : Config) : ℕ :=
  4 + c.nodeIdWidth + c.nodeIdWidth + 8 + c.nodeIdWidth + 1 + 8 + 6 + 3 + c.addrWidth + 1 + 1 + 1 + 2 + 4 + 4 + 1 + 5 + 1 + 1 + 1 +
    c.rsvdcWidth

/-- `ParseFlit`. -/
def parse (u : Overlong) (c : Config) (flit : Bits) : Reader ReqFlit := do
  let qoS ← extract u flit 8 4
  let tgtID ← extract u flit 16 c.nodeIdWidth
  let srcID ← extract u flit 16 c.nodeIdWidth
  -- a `uint16_t`, for a field that is kept in a `uint8_t`
  let txnID ← extract u flit 16 8
  let returnNID_StashNID ← extract u flit 16 c.nodeIdWidth
  let stashNIDValid_Endian ← extractBool flit
  let returnTxnID ← extract u flit 8 8
  let opcode ← extract u flit 8 6
  let size ← extract u flit 8 3
  let address ← extract u flit 64 c.addrWidth
  let nonSecure ← extractBool flit
  let likelyShared ← extractBool flit
  let allowRetry ← extractBool flit
  let order ← extract u flit 8 2
  let pCrdType ← extract u flit 8 4
  let memAttr ← extract u flit 8 4
  let snpAttr ← extractBool flit
  let lpid ← extract u flit 16 5
  let excl_SnoopMe ← extractBool flit
  let expCompAck ← extractBool flit
  let traceTag ← extractBool flit
  let rsvdc ← extractIf c.rsvdcWidth (extract u flit 32 c.rsvdcWidth)
  return { qoS, tgtID, srcID, returnNID_StashNID, stashNIDValid_Endian, returnTxnID, opcode, address, nonSecure, likelyShared, allowRetry, order,
           pCrdType, snpAttr, lpid, excl_SnoopMe, expCompAck, traceTag, rsvdc
           txnID := txnID.setWidth 8
           size := size.setWidth 32
           allocate := memAttr.getLsbD 3
           cacheable := memAttr.getLsbD 2
           deviceMemory := memAttr.getLsbD 1
           earlyWrAck := memAttr.getLsbD 0 }

end ReqFlit

/-- The values that the bridge puts into a request. -/
def ReqPkt.values (p : ReqPkt) : ReqFlit :=
  { qoS := p.qoS, tgtID := p.tgtID, srcID := p.srcID, txnID := p.txnID, returnNID_StashNID := p.returnNID_StashNID
    stashNIDValid_Endian := p.stashNIDValid_Endian, returnTxnID := p.returnTxnID, opcode := p.opcode, size := p.getSize.setWidth 32
    address := p.address, nonSecure := !p.secure, likelyShared := p.likelyShared, allowRetry := p.allowRetry, order := p.order
    pCrdType := p.pCrdType, allocate := p.allocate, cacheable := p.cacheable, deviceMemory := p.deviceMemory, earlyWrAck := p.earlyWrAck
    snpAttr := p.snpAttr, lpid := p.lpid.setWidth 16, excl_SnoopMe := p.excl_SnoopMe, expCompAck := p.expCompAck, traceTag := p.traceTag
    rsvdc := p.rsvdc }

/-! ### Responses -/

/-- A parsed response. -/
structure RspFlit where
  qoS : BitVec 8
  tgtID : BitVec 16
  srcID : BitVec 16
  txnID : BitVec 8
  opcode : BitVec 8
  respErr : BitVec 8
  resp : BitVec 8
  fwdState_DataPull : BitVec 8
  dbid : BitVec 8
  pCrdType : BitVec 8
  traceTag : Bool

namespace RspFlit

/-- `FLIT_WIDTH`. -/
def flitWidth (c : Config) : ℕ := 4 + c.nodeIdWidth + c.nodeIdWidth + 8 + 4 + 2 + 3 + 3 + 8 + 4 + 1

/-- `ParseFlit`. -/
def parse (u : Overlong) (c : Config) (flit : Bits) : Reader RspFlit := do
  let qoS ← extract u flit 8 4
  let tgtID ← extract u flit 16 c.nodeIdWidth
  let srcID ← extract u flit 16 c.nodeIdWidth
  let txnID ← extract u flit 8 8
  let opcode ← extract u flit 8 4
  let respErr ← extract u flit 8 2
  let resp ← extract u flit 8 3
  let fwdState_DataPull ← extract u flit 8 3
  let dbid ← extract u flit 8 8
  let pCrdType ← extract u flit 8 4
  let traceTag ← extractBool flit
  return { qoS, tgtID, srcID, txnID, opcode, respErr, resp, fwdState_DataPull, dbid, pCrdType, traceTag }

end RspFlit

/-- The values that the bridge puts into a response. -/
def RspPkt.values (p : RspPkt) : RspFlit :=
  { qoS := p.qoS, tgtID := p.tgtID, srcID := p.srcID, txnID := p.txnID, opcode := p.opcode, respErr := p.respErr, resp := p.resp
    fwdState_DataPull := p.fwdState_DataPull, dbid := p.dbid, pCrdType := p.pCrdType, traceTag := p.traceTag }

/-! ### Snoops -/

/-- A parsed snoop. -/
structure SnpFlit where
  qoS : BitVec 8
  srcID : BitVec 16
  txnID : BitVec 8
  fwdNID : BitVec 16
  fwdTxnID : BitVec 8
  opcode : BitVec 8
  address : BitVec 64
  nonSecure : Bool
  doNotGoToSD : Bool
  retToSrc : Bool
  traceTag : Bool

namespace SnpFlit

/-- `FLIT_WIDTH`. -/
def flitWidth (c : Config) : ℕ := 4 + c.nodeIdWidth + 8 + c.nodeIdWidth + 8 + 5 + (c.addrWidth - 3) + 1 + 1 + 1 + 1

/-- `ParseFlit`, whose `Extract` has the mask of the other flits. -/
def parse (u : Overlong) (c : Config) (flit : Bits) : Reader SnpFlit := do
  let qoS ← extract u flit 8 4
  let srcID ← extract u flit 16 c.nodeIdWidth
  let txnID ← extract u flit 8 8
  let fwdNID ← extract u flit 16 c.nodeIdWidth
  let fwdTxnID ← extract u flit 8 8
  let opcode ← extract u flit 8 5
  let addr ← extract u flit 64 (c.addrWidth - 3)
  let nonSecure ← extractBool flit
  let doNotGoToSD ← extractBool flit
  let retToSrc ← extractBool flit
  let traceTag ← extractBool flit
  return { qoS, srcID, txnID, fwdNID, fwdTxnID, opcode, nonSecure, doNotGoToSD, retToSrc, traceTag
           address := addr <<< 3 }

end SnpFlit

/-- The values that the bridge puts into a snoop. -/
def SnpPkt.values (p : SnpPkt) : SnpFlit :=
  { qoS := p.qoS, srcID := p.srcID, txnID := p.txnID, fwdNID := p.fwdNID, fwdTxnID := p.fwdTxnID, opcode := p.opcode, address := p.address
    nonSecure := !p.secure, doNotGoToSD := p.doNotGoToSD, retToSrc := p.retToSrc, traceTag := p.traceTag }

/-! ### Data -/

/-- `CACHELINE_SZ`, the size of `m_data` and `m_byteEnable`. -/
def checkerLanes : ℕ := 64

/-- A parsed data flit. -/
structure DatFlit where
  qoS : BitVec 8
  tgtID : BitVec 16
  srcID : BitVec 16
  txnID : BitVec 8
  homeNID : BitVec 16
  opcode : BitVec 8
  respErr : BitVec 8
  resp : BitVec 8
  fwdState_DataPull_DataSource : BitVec 8
  dbid : BitVec 8
  ccid : BitVec 8
  dataID : BitVec 8
  traceTag : Bool
  rsvdc : BitVec 32
  byteEnable : ℕ → BitVec 8
  data : ℕ → BitVec 8
  dataCheck : BitVec 64
  poison : BitVec 8

namespace DatFlit

/-- `FLIT_WIDTH`. -/
def flitWidth (c : Config) : ℕ :=
  4 + c.nodeIdWidth + c.nodeIdWidth + 8 + c.nodeIdWidth + c.datOpcodeWidth + 2 + 3 + 3 + 8 + 2 + 2 + 1 + c.rsvdcWidth + c.dataBytes +
    8 * c.dataBytes + c.dataCheckWidth + c.poisonWidth

/-- `ParseFlit`, with room for all lanes. Byte enables and data are extracted as by the bridge. -/
def fields (u : Overlong) (c : Config) (flit : Bits) : Reader DatFlit := do
  let qoS ← extract u flit 8 4
  let tgtID ← extract u flit 16 c.nodeIdWidth
  let srcID ← extract u flit 16 c.nodeIdWidth
  let txnID ← extract u flit 8 8
  let homeNID ← extract u flit 16 c.nodeIdWidth
  let opcode ← extract u flit 8 c.datOpcodeWidth
  let respErr ← extract u flit 8 2
  let resp ← extract u flit 8 3
  let fwdState_DataPull_DataSource ← extract u flit 8 3
  let dbid ← extract u flit 8 8
  let ccid ← extract u flit 8 2
  let dataID ← extract u flit 8 2
  let traceTag ← extractBool flit
  let rsvdc ← extractIf c.rsvdcWidth (extract u flit 32 c.rsvdcWidth)
  let byteEnable ← DatPkt.extractByteEnable c flit
  let data ← DatPkt.extractData u c flit
  let dataCheck ← extractIf c.dataCheckWidth (extract u flit 64 c.dataCheckWidth)
  let poison ← extractIf c.poisonWidth (extract u flit 8 c.poisonWidth)
  return { qoS, tgtID, srcID, txnID, homeNID, opcode, respErr, resp, fwdState_DataPull_DataSource, dbid, ccid, dataID, traceTag, rsvdc, byteEnable,
           data, dataCheck, poison }

/-- `ParseFlit`: there is no flit where the arrays are too small. -/
def parse (u : Overlong) (c : Config) (flit : Bits) : Option (DatFlit × ℕ) := if c.dataBytes ≤ checkerLanes then some (fields u c flit 0) else none

end DatFlit

/-- The flit has the values that the bridge put into the first flit of a data packet: all its fields, the bytes of the
data as far as they reach, and all lanes of the byte enables. -/
structure DatPkt.Values (c : Config) (p : DatPkt) (q : DatFlit) : Prop where
  fields : q = { qoS := p.qoS, tgtID := p.tgtID, srcID := p.srcID, txnID := p.txnID, homeNID := p.homeNID, opcode := p.opcode
                 respErr := p.respErr, resp := p.resp, fwdState_DataPull_DataSource := p.fwdState_DataPull_DataSource, dbid := p.dbid
                 ccid := p.ccid, dataID := 0, traceTag := p.traceTag, rsvdc := p.rsvdc, byteEnable := q.byteEnable, data := q.data
                 dataCheck := p.dataCheck, poison := p.poison }
  data : ∀ i < min p.dataLength c.dataBytes, q.data i = p.data i
  byteEnable : ∀ i < c.dataBytes, q.byteEnable i = if (p.byteEnableSlot c 0).bit i = true then byteEnabled else 0

/-! ### Agreement -/

/-- Both sides have the same widths, and the checker gets from the bridge's flit the values the bridge put into it. -/
def Agrees (u : Overlong) (c : Config) : Packet → Prop
  | .req p => ReqFlit.flitWidth c = ReqPkt.flitWidth c ∧ ReqFlit.parse u c (p.createFlit u c).1 0 = (p.values, (p.createFlit u c).2)
  | .rsp p => RspFlit.flitWidth c = RspPkt.flitWidth c ∧ RspFlit.parse u c (p.createFlit u c).1 0 = (p.values, (p.createFlit u c).2)
  | .snp p => SnpFlit.flitWidth c = SnpPkt.flitWidth c ∧ SnpFlit.parse u c (p.createFlit u c).1 0 = (p.values, (p.createFlit u c).2)
  | .dat p => DatFlit.flitWidth c = DatPkt.flitWidth c ∧ ∃ flit s q, p.createFlit u c {} = .ok (flit, s) ∧
      DatFlit.parse u c flit = some (q, s.pos) ∧ p.Values c q

/-- What survives the masks of the checker. -/
def Extracted (u : Overlong) (c : Config) : Packet → Prop
  | .req p => carried u p.address c.addrWidth = p.address ∧ carried u p.rsvdc c.rsvdcWidth = p.rsvdc
  | .rsp _ => True
  | .snp p => carried u (p.address >>> 3) (c.addrWidth - 3) = p.address >>> 3
  | .dat p => carried u p.rsvdc c.rsvdcWidth = p.rsvdc ∧ carried u p.dataCheck c.dataCheckWidth = p.dataCheck ∧
      (p.dataLength < c.dataBytes ∨ 8 ≤ c.dataCheckWidth + c.poisonWidth) ∧ c.dataBytes ≤ checkerLanes

section Agreement

variable {u : Overlong} {c : Config} {m : Bits}

/-- A request of the bridge is parsed to its values, but for what the masks cut off. -/
theorem ReqFlit.reads_parse {p : ReqPkt} (h : p.Declared c) : Reads (ReqFlit.parse u c m) m (p.slots u c)
    { p.values with address := carried u p.address c.addrWidth, rsvdc := carried u p.rsvdc c.rsvdcWidth } := by
  have hid : c.nodeIdWidth < 32 := lt_of_le_of_lt c.nodeIdWidth_le (by decide)
  obtain ⟨hmem, h3, h2, h1, h0⟩ := p.memAttr_bits
  unfold parse ReqPkt.slots
  refine .cons (reads_small (by decide) (by decide) h.qoS) ?_
  refine .cons (reads_small (by decide) hid h.tgtID) ?_
  refine .cons (reads_small (by decide) hid h.srcID) ?_
  refine .cons (reads_other (by decide) (by decide) p.txnID.isLt) ?_
  refine .cons (reads_small (by decide) hid h.returnNID_StashNID) ?_
  refine .cons (reads_bool _) ?_
  refine .cons (reads_small (by decide) (by decide) p.returnTxnID.isLt) ?_
  refine .cons (reads_small (by decide) (by decide) h.opcode) ?_
  refine .cons (reads_small (by decide) (by decide) p.getSize_lt) ?_
  refine .cons (reads_extract (by decide) h.address) ?_
  refine .cons (reads_bool _) ?_
  refine .cons (reads_bool _) ?_
  refine .cons (reads_bool _) ?_
  refine .cons (reads_small (by decide) (by decide) h.order) ?_
  refine .cons (reads_small (by decide) (by decide) h.pCrdType) ?_
  refine .cons (reads_small (by decide) (by decide) hmem) ?_
  refine .cons (reads_bool _) ?_
  refine .cons (reads_other (by decide) (by decide) h.lpid) ?_
  refine .cons (reads_bool _) ?_
  refine .cons (reads_bool _) ?_
  refine .cons (reads_bool _) ?_
  refine .last (reads_wideIf (by decide) h.rsvdc) ?_
  rw [setWidth_back p.txnID (by decide) (by decide), h3, h2, h1, h0, BitVec.setWidth_setWidth_of_le _ (by decide)]
  rfl

theorem RspFlit.reads_parse {p : RspPkt} (h : p.Declared c) : Reads (RspFlit.parse u c m) m (p.slots u c) p.values := by
  have hid : c.nodeIdWidth < 32 := lt_of_le_of_lt c.nodeIdWidth_le (by decide)
  unfold parse RspPkt.slots
  refine .cons (reads_small (by decide) (by decide) h.qoS) ?_
  refine .cons (reads_small (by decide) hid h.tgtID) ?_
  refine .cons (reads_small (by decide) hid h.srcID) ?_
  refine .cons (reads_small (by decide) (by decide) p.txnID.isLt) ?_
  refine .cons (reads_small (by decide) (by decide) h.opcode) ?_
  refine .cons (reads_small (by decide) (by decide) h.respErr) ?_
  refine .cons (reads_small (by decide) (by decide) h.resp) ?_
  refine .cons (reads_small (by decide) (by decide) h.fwdState_DataPull) ?_
  refine .cons (reads_small (by decide) (by decide) p.dbid.isLt) ?_
  refine .cons (reads_small (by decide) (by decide) h.pCrdType) ?_
  exact .last (reads_bool _) rfl

/-- A snoop is parsed to its values, but for the address. -/
theorem SnpFlit.reads_parse {p : SnpPkt} (h : p.Declared c) : Reads (SnpFlit.parse u c m) m (p.slots u c)
    { p.values with address := carried u (p.address >>> 3) (c.addrWidth - 3) <<< 3 } := by
  have hid : c.nodeIdWidth < 32 := lt_of_le_of_lt c.nodeIdWidth_le (by decide)
  unfold parse SnpPkt.slots
  refine .cons (reads_small (by decide) (by decide) h.qoS) ?_
  refine .cons (reads_small (by decide) hid h.srcID) ?_
  refine .cons (reads_small (by decide) (by decide) p.txnID.isLt) ?_
  refine .cons (reads_small (by decide) hid h.fwdNID) ?_
  refine .cons (reads_small (by decide) (by decide) p.fwdTxnID.isLt) ?_
  refine .cons (reads_small (by decide) (by decide) h.opcode) ?_
  refine .cons (reads_extract (by decide) h.shifted) ?_
  refine .cons (reads_bool _) ?_
  refine .cons (reads_bool _) ?_
  refine .cons (reads_bool _) ?_
  exact .last (reads_bool _) rfl

/-- What the checker makes of a data flit, of whose data it has `sl`. -/
def DatFlit.made (u : Overlong) (c : Config) (p : DatPkt) (sent : ℕ) (sl : Slot) : DatFlit :=
  { qoS := p.qoS, tgtID := p.tgtID, srcID := p.srcID, txnID := p.txnID, homeNID := p.homeNID, opcode := p.opcode, respErr := p.respErr
    resp := p.resp, fwdState_DataPull_DataSource := p.fwdState_DataPull_DataSource, dbid := p.dbid, ccid := p.ccid
    dataID := BitVec.ofNat 8 (sent / c.dataBytes), traceTag := p.traceTag, rsvdc := carried u p.rsvdc c.rsvdcWidth, byteEnable := lanes c p sent
    data := laneData c sl, dataCheck := carried u p.dataCheck c.dataCheckWidth, poison := p.poison }

theorem DatFlit.reads_fields {p : DatPkt} (h : p.Declared c) {sent : ℕ} (hsent : (BitVec.ofNat 8 (sent / c.dataBytes)).toNat < 2 ^ 2) {sl : Slot}
    (hsl : sl.width = 8 * c.dataBytes) : Reads (DatFlit.fields u c m) m
      (p.headSlots u c sent ++ ([p.byteEnableSlot c sent] ++ ([sl] ++ p.tailSlots u c))) (DatFlit.made u c p sent sl) := by
  have hid : c.nodeIdWidth < 32 := lt_of_le_of_lt c.nodeIdWidth_le (by decide)
  have hop : c.datOpcodeWidth < 32 := lt_of_le_of_lt c.datOpcodeWidth_le (by decide)
  have hpo : c.poisonWidth < 32 := lt_of_le_of_lt c.poisonWidth_le (by decide)
  unfold fields DatPkt.headSlots
  rw [List.append_assoc]
  refine .cons (reads_small (by decide) (by decide) h.qoS) ?_
  refine .cons (reads_small (by decide) hid h.tgtID) ?_
  refine .cons (reads_small (by decide) hid h.srcID) ?_
  refine .cons (reads_small (by decide) (by decide) p.txnID.isLt) ?_
  refine .cons (reads_small (by decide) hid h.homeNID) ?_
  refine .cons (reads_small (by decide) hop h.opcode) ?_
  refine .cons (reads_small (by decide) (by decide) h.respErr) ?_
  refine .cons (reads_small (by decide) (by decide) h.resp) ?_
  refine .cons (reads_small (by decide) (by decide) h.fwdState_DataPull_DataSource) ?_
  refine .cons (reads_small (by decide) (by decide) p.dbid.isLt) ?_
  refine .cons (reads_small (by decide) (by decide) h.ccid) ?_
  refine .cons (reads_small (by decide) (by decide) hsent) ?_
  refine .cons (reads_bool _) ?_
  change Reads _ _ (setIf c.rsvdcWidth (set u p.rsvdc c.rsvdcWidth) ++ ([p.byteEnableSlot c sent] ++ ([sl] ++ p.tailSlots u c))) _
  refine .append (reads_wideIf (by decide) h.rsvdc) ?_
  refine .append (reads_byteEnable sent) ?_
  refine .append (reads_data hsl) ?_
  refine .append (reads_wideIf (by decide) h.dataCheck) ?_
  refine .last (reads_wideIf (by decide) h.poison) ?_
  rw [carried_eq (by decide) hpo h.poison]
  rfl

/-! ### The packets -/

theorem req_agrees {p : ReqPkt} (h : p.Declared c) : Agrees u c (.req p) ↔ Extracted u c (.req p) := by
  have hpos : (p.createFlit u c).2 = ReqPkt.flitWidth c := by rw [ReqPkt.createFlit, Bits.putAll_pos, total_slots_req, Nat.zero_add]
  have hparse := ReqFlit.reads_parse (u := u) (m := (p.createFlit u c).1) h 0 (Bits.holds_putAll _ _)
  rw [total_slots_req, Nat.zero_add] at hparse
  rw [Agrees, hparse, hpos]
  constructor
  · rintro ⟨-, heq⟩
    have hp := (Prod.mk.inj heq).1
    exact ⟨congrArg ReqFlit.address hp, congrArg ReqFlit.rsvdc hp⟩
  · rintro ⟨ha, hr⟩
    refine ⟨rfl, ?_⟩
    rw [ha, hr]
    rfl

theorem rsp_agrees {p : RspPkt} (h : p.Declared c) : Agrees u c (.rsp p) := by
  have hpos : (p.createFlit u c).2 = RspPkt.flitWidth c := by rw [RspPkt.createFlit, Bits.putAll_pos, total_slots_rsp, Nat.zero_add]
  have hparse := RspFlit.reads_parse (u := u) (m := (p.createFlit u c).1) h 0 (Bits.holds_putAll _ _)
  rw [total_slots_rsp, Nat.zero_add] at hparse
  refine ⟨rfl, ?_⟩
  rw [hparse, hpos]

theorem carried_le {t : ℕ} (v : BitVec t) (w : ℕ) : (carried u v w).toNat ≤ v.toNat := by
  rw [carried, BitVec.toNat_setWidth, BitVec.toNat_and, BitVec.toNat_setWidth, BitVec.toNat_and]
  exact (Nat.mod_le _ _).trans (Nat.and_le_left.trans ((Nat.mod_le _ _).trans Nat.and_le_left))

/-- An address that was shifted out and in again is what it was exactly when its field is. -/
theorem shifted_eq_iff {p : SnpPkt} (h : p.Declared c) :
    carried u (p.address >>> 3) (c.addrWidth - 3) <<< 3 = p.address ↔ carried u (p.address >>> 3) (c.addrWidth - 3) = p.address >>> 3 := by
  have hle := carried_le (u := u) (p.address >>> 3) (c.addrWidth - 3)
  rw [BitVec.toNat_ushiftRight, Nat.shiftRight_eq_div_pow] at hle
  constructor
  · intro heq
    have hnat := congrArg BitVec.toNat heq
    rw [BitVec.toNat_shiftLeft, Nat.shiftLeft_eq] at hnat
    apply BitVec.eq_of_toNat_eq
    rw [BitVec.toNat_ushiftRight, Nat.shiftRight_eq_div_pow]
    omega
  · intro heq
    rw [heq, shiftRight_shiftLeft h.aligned]

theorem snp_agrees {p : SnpPkt} (h : p.Declared c) : Agrees u c (.snp p) ↔ Extracted u c (.snp p) := by
  have hpos : (p.createFlit u c).2 = SnpPkt.flitWidth c := by rw [SnpPkt.createFlit, Bits.putAll_pos, total_slots_snp, Nat.zero_add]
  have hparse := SnpFlit.reads_parse (u := u) (m := (p.createFlit u c).1) h 0 (Bits.holds_putAll _ _)
  rw [total_slots_snp, Nat.zero_add] at hparse
  rw [Agrees, hparse, hpos, Extracted, ← shifted_eq_iff h]
  constructor
  · rintro ⟨-, heq⟩
    exact congrArg SnpFlit.address (Prod.mk.inj heq).1
  · intro ha
    refine ⟨rfl, ?_⟩
    rw [ha]
    rfl

theorem dat_agrees {p : DatPkt} (h : p.Declared c) : Agrees u c (.dat p) ↔ Extracted u c (.dat p) := by
  have hparse : ∀ {flit s}, Created u c p {} flit s → c.dataBytes ≤ checkerLanes → ∃ sl, DatFlit.parse u c flit = some (DatFlit.made u c p 0 sl, s.pos) ∧
      ∀ i < min p.dataLength c.dataBytes, laneData c sl i = p.data i := by
    intro flit s hc hlanes
    obtain ⟨sl, hwidth, hholds, hlen, hdata⟩ := holds_of_created hc
    refine ⟨sl, ?_, hdata⟩
    have hpos : s.pos = DatPkt.flitWidth c := by rw [hc.next]
    rw [DatFlit.parse, if_pos hlanes, DatFlit.reads_fields h (by simp) hwidth 0 hholds, Nat.zero_add, hlen, hpos]
  constructor
  · rintro ⟨-, flit, s, q, hcreate, hq, hvalues⟩
    have hc := created_of_ok hcreate
    have hlanes : c.dataBytes ≤ checkerLanes := by
      by_contra hmore
      rw [DatFlit.parse, if_neg hmore] at hq
      cases hq
    obtain ⟨sl, hp, -⟩ := hparse hc hlanes
    rw [hp] at hq
    obtain rfl := (Prod.mk.inj (Option.some.inj hq)).1
    exact ⟨congrArg DatFlit.rsvdc hvalues.fields, congrArg DatFlit.dataCheck hvalues.fields, hc.room, hlanes⟩
  · rintro ⟨hr, hd, hroom, hlanes⟩
    obtain ⟨flit, s, hcreate⟩ := exists_createFlit (u := u) (s := {}) rfl hroom
    obtain ⟨sl, hp, hdata⟩ := hparse (created_of_ok hcreate) hlanes
    refine ⟨rfl, flit, s, _, hcreate, hp, ?_, hdata, fun i hi => ?_⟩
    · rw [DatFlit.made, hr, hd, Nat.zero_div]
      rfl
    · change lanes c p 0 i = _
      simp only [lanes, hi, true_and]

end Agreement

/-- **The checker gets the values of the bridge exactly when** they survive its masks. -/
theorem checker_agrees_iff (u : Overlong) (c : Config) (x : Packet) (h : Declared c x) : Agrees u c x ↔ Extracted u c x := by
  cases x with
  | req p => exact req_agrees h
  | rsp p => exact iff_of_true (rsp_agrees h) trivial
  | snp p => exact snp_agrees h
  | dat p => exact dat_agrees h

theorem checker_agrees_lineRead : Agrees x86 defaultConfig (.req (lineRead 0xfc0)) :=
  (checker_agrees_iff x86 defaultConfig (.req (lineRead 0xfc0)) (declared_lineRead (by decide))).2 (by unfold Extracted; decide)

/-- A snoop of the line at an address. -/
def lineSnoop (address : BitVec 64) : SnpPkt where
  qoS := 0
  srcID := 20
  txnID := 1
  fwdNID := 0
  fwdTxnID := 0
  opcode := 7
  address := address
  secure := true
  doNotGoToSD := false
  retToSrc := false
  traceTag := false

/-- The checker's mask for a snoop cuts an address that the bridge's keeps. -/
theorem not_agrees_lineSnoop : ¬∀ (u : Overlong) (c : Config) (x : Packet), Declared c x → Agrees u c x := by
  intro h
  have hdeclared : (lineSnoop 0x1000).Declared defaultConfig := ⟨by decide, by decide, by decide, by decide, by decide, by decide⟩
  have hcut := (snp_agrees hdeclared).1 (h x86 defaultConfig (.snp (lineSnoop 0x1000)) hdeclared)
  revert hcut
  unfold Extracted
  decide

end LibSystemCTLM.Chi
