import LibSystemCTLM.Foundation.Fields
import LibSystemCTLM.Foundation.Words

/-!
# CCIX messages

A port makes a CCIX message of a transaction and its `ccixattr_extension` (`MsgReq`, `MsgRsp`,
`MsgSnpReq`, `MsgCrdEx`, `MsgNOP`, `MsgMiscCredited`), wraps it in a TLP behind a header, and
extracts the messages of the TLPs it receives (`TLPAssembler`).

## The model

An `IMsg` is the extension and what is used of the payload. A message is made as a list of words,
and a TLP is their bytes, the most significant one first. `GEN_FIELD_FUNCS` gives every field a
place in its word: `set` asserts that the value fits there, and `word` joins what is set.

The parser reads at `m_pos` in the bytes from the message on. What is behind the end of them is
outside (`Fault.outside`), as is what is behind the 64 bytes of `m_data` and `m_byteEnable`;
`SC_REPORT_ERROR` throws.

## Honest scope

The flits a TLP is cut into are left out, and the attributes that neither making nor extracting
uses (`Ext`).
-/

namespace LibSystemCTLM.Ccix

open Foundation

/-- How making or extracting a message can fail. -/
inductive Fault where
  | assertion
  | outside
  | reported
  /-- Messages are extracted without end. -/
  | diverges
  deriving DecidableEq

/-- `ccixattr_extension`. -/
structure Attr where
  tgtID : BitVec 8 := 0
  srcID : BitVec 8 := 0
  msgLen : BitVec 8 := 0
  msgCredit : BitVec 8 := 0
  msgType : BitVec 8 := 0
  qoS : BitVec 8 := 0
  txnID : BitVec 16 := 0
  reqOp : BitVec 8 := 0
  secure : Bool := false
  reqAttr : BitVec 8 := 0
  snpCast : BitVec 8 := 0
  dataRet : Bool := false
  snpOp : BitVec 8 := 0
  respOp : BitVec 8 := 0
  respAttr : BitVec 8 := 0
  miscOp : BitVec 8 := 0
  dataCredit : BitVec 32 := 0
  reqCredit : BitVec 32 := 0
  miscCredit : BitVec 32 := 0
  snpCredit : BitVec 32 := 0
  payload : ℕ → BitVec 8 := fun _ => 0
  payloadSz : ℕ := 0
  user : BitVec 32 := 0
  respErr : BitVec 8 := 0
  poison0 : BitVec 8 := 0
  poison1 : BitVec 8 := 0

/-- `m_attr` and `m_gp`. There are byte enables if their length is not zero. -/
structure IMsg where
  attr : Attr := {}
  /-- `is_write`. -/
  write : Bool := false
  address : BitVec 64 := 0
  data : ℕ → BitVec 8 := fun _ => 0
  dataLength : ℕ := 64
  byteEnable : ℕ → BitVec 8 := fun _ => 0
  byteEnableLength : ℕ := 0

/-- `TLM_BYTE_ENABLED`. -/
def byteEnabled : BitVec 8 := 0xff

/-- Whether a byte of the data is enabled. -/
def IMsg.enabled (m : IMsg) (i : ℕ) : Bool := m.byteEnableLength = 0 || m.byteEnable (i % m.byteEnableLength) = byteEnabled

/-- `CACHELINE_SZ`. -/
def cachelineSz : ℕ := 64

/-- `MaxDataSz`, the size of `Payload`. -/
def maxDataSz : ℕ := 32

namespace Msg

/-! ### `Msg::Type`, `Msg::ReqOp` and the others -/

def typeReq : BitVec 8 := 0x1
def typeSnpReq : BitVec 8 := 0x2
def typeMiscCredited : BitVec 8 := 0x3
def typeResp : BitVec 8 := 0x9
def typeSnpResp : BitVec 8 := 0xA
def typeMiscUnCredited : BitVec 8 := 0xB

def readNoSnp : BitVec 8 := 0x00
def writeNoSnpPtl : BitVec 8 := 0x20
def writeNoSnpFull : BitVec 8 := 0x21
def writeUniquePtl : BitVec 8 := 0x22
def writeUniqueFull : BitVec 8 := 0x23
def writeBackPtl : BitVec 8 := 0x24
def writeBackFullUD : BitVec 8 := 0x25
def writeBackFullSD : BitVec 8 := 0x27
def writeCleanFullSD : BitVec 8 := 0x2B
def writeEvictFull : BitVec 8 := 0x2D
def atomicStore : BitVec 8 := 0x40
def atomicCompareSnpMe : BitVec 8 := 0xE1
def reqChain : BitVec 8 := 0xF0

def snpChain : BitVec 8 := 0x7

def nop : BitVec 8 := 0x0
def creditGrant : BitVec 8 := 0x1
def creditReturn : BitVec 8 := 0x2

def extType0 : BitVec 32 := 0
def extType1 : BitVec 32 := 1
def extType2 : BitVec 32 := 2
def extType6 : BitVec 32 := 6

end Msg

/-! ### Fields -/

/-- `set_` of a field. -/
def set (f : BitField) (v : BitVec 32) : Except Fault (BitVec 32) :=
  if v &&& ~~~ fieldMask f.width = 0 then .ok ((v &&& fieldMask f.width) <<< f.shift) else .error .assertion

/-- The fields that are set, joined by `|`. -/
def word : List (BitField × BitVec 32) → Except Fault (BitVec 32)
  | [] => .ok 0
  | (f, v) :: l => do return (← set f v) ||| (← word l)

/-- A `bool` as an integer. -/
def ofBool (b : Bool) : BitVec 32 := if b then 1 else 0

namespace IMsg

def ext : BitField := ⟨31, 1⟩
def msgType : BitField := ⟨27, 4⟩
def msgLen : BitField := ⟨22, 5⟩
def extType : BitField := ⟨28, 3⟩
def address_63_60 : BitField := ⟨20, 4⟩
def ext0TgtID : BitField := ⟨14, 6⟩
def ext0SrcID : BitField := ⟨8, 6⟩
def address_59_52 : BitField := ⟨0, 8⟩
def address_5_0 : BitField := ⟨0, 6⟩
def user : BitField := ⟨0, 28⟩
def respErr : BitField := ⟨24, 2⟩
def poison0 : BitField := ⟨8, 8⟩

end IMsg

namespace MsgReq

def txnID : BitField := ⟨10, 12⟩
def rsvd0_0 : BitField := ⟨8, 2⟩
def reqOp : BitField := ⟨0, 8⟩
def reqAttr : BitField := ⟨24, 8⟩
def rsvd2_0 : BitField := ⟨20, 4⟩
def address_51_32 : BitField := ⟨0, 20⟩
def address_31_6 : BitField := ⟨6, 26⟩
def rsvd3_0 : BitField := ⟨5, 1⟩
def ns : BitField := ⟨4, 1⟩
def qoS : BitField := ⟨0, 4⟩
def reqAttrSize : BitField := ⟨4, 3⟩

end MsgReq

namespace MsgRsp

def txnID : BitField := ⟨10, 12⟩
def rsvd0_0 : BitField := ⟨7, 3⟩
def respAttr : BitField := ⟨4, 3⟩
def rsvd0_1 : BitField := ⟨3, 1⟩
def respOp : BitField := ⟨0, 3⟩

end MsgRsp

namespace MsgSnpReq

def txnID : BitField := ⟨10, 12⟩
def rsvd0_0 : BitField := ⟨7, 3⟩
def snpCast : BitField := ⟨5, 2⟩
def dr : BitField := ⟨4, 1⟩
def snpOp : BitField := ⟨0, 4⟩
def rsvd2_0 : BitField := ⟨20, 12⟩
def address_51_32 : BitField := ⟨0, 20⟩
def address_31_6 : BitField := ⟨6, 26⟩
def rsvd3_0 : BitField := ⟨5, 1⟩
def ns : BitField := ⟨4, 1⟩
def rsvd3_1 : BitField := ⟨0, 4⟩

end MsgSnpReq

namespace MsgCrdEx

def rsvd0_0 : BitField := ⟨19, 3⟩
def miscOp : BitField := ⟨16, 4⟩
def dataCredit : BitField := ⟨8, 8⟩
def reqCredit : BitField := ⟨0, 8⟩
def rsvd1_0 : BitField := ⟨16, 16⟩
def miscCredit : BitField := ⟨8, 8⟩
def snpCredit : BitField := ⟨0, 8⟩

end MsgCrdEx

namespace MsgNOP

def rsvd0_0 : BitField := ⟨19, 3⟩
def miscOp : BitField := ⟨16, 4⟩
def rsvd0_1 : BitField := ⟨0, 16⟩

end MsgNOP

namespace MsgMiscCredited

def miscCredit : BitField := ⟨19, 3⟩
def miscOp : BitField := ⟨16, 4⟩
def payload0 : BitField := ⟨8, 8⟩
def payload1 : BitField := ⟨0, 8⟩

end MsgMiscCredited

/-! ### Making a message -/

/-- `set_MsgLen(m_hdr.size())` in the first word. -/
def setMsgLen (w : BitVec 32) (l : List (BitVec 32)) : Except Fault (List (BitVec 32)) := do
  return (w ||| (← set IMsg.msgLen (BitVec.ofNat 32 (l.length + 1)))) :: l

namespace IMsg

/-- The byte enables of the bytes from `8 * k` on. Without any all are enabled, until the end is met. -/
def placedBE (m : IMsg) (k : ℕ) : BitVec 8 :=
  if m.byteEnableLength = 0 then if m.dataLength % 8 = 0 ∧ m.dataLength ≤ 8 * k then 0 else 0xff
  else ofBits 8 fun j => decide (8 * k + j < m.dataLength) && m.enabled (8 * k + j)

/-- `PlaceBE`: a word for 32 bytes. -/
def placeBE (m : IMsg) : List (BitVec 32) := arrayWords m.placedBE ((m.dataLength + 31) / 32)

/-- `PlaceData`: a length that is no multiple of four is never used up. -/
def placeData (m : IMsg) : Except Fault (List (BitVec 32)) :=
  if m.dataLength % 4 = 0 then .ok (arrayWords m.data (m.dataLength / 4)) else .error .outside

/-- The data, and the byte enables before it. -/
def tail (be : Bool) (m : IMsg) : Except Fault (List (BitVec 32)) :=
  if m.write then do return (if be then m.placeBE else []) ++ (← m.placeData) else .ok []

/-- `addr >> 32` as a `uint32_t`. -/
def addressHigh (m : IMsg) : BitVec 32 := (m.address >>> 32).setWidth 32

/-- `ExtType0_required`. -/
def extType0Required (m : IMsg) : Bool := address_63_60.get m.addressHigh ≠ 0 || address_59_52.get m.addressHigh ≠ 0

/-- `ExtType1_required`. -/
def extType1Required (m : IMsg) : Bool := address_5_0.get (m.address.setWidth 32) ≠ 0

/-- The extension with the address bits 63:52, before one of type 1 or not. -/
def placeExt0 (more : Bool) (m : IMsg) : Except Fault (List (BitVec 32)) :=
  if m.extType0Required then do
    return [← word [(ext, ofBool more), (extType, Msg.extType0), (address_63_60, m.addressHigh), (address_59_52, m.addressHigh)]]
  else .ok []

end IMsg

namespace MsgReq

/-- `HasByteEnables`. -/
def hasByteEnables (a : Attr) : Bool := a.reqOp = Msg.writeNoSnpPtl || a.reqOp = Msg.writeUniquePtl || a.reqOp = Msg.writeBackPtl

/-- `IsAtomic`. -/
def isAtomic (a : Attr) : Bool := Msg.atomicStore ≤ a.reqOp && a.reqOp ≤ Msg.atomicCompareSnpMe

/-- `ExtType1Allowed`. -/
def extType1Allowed (a : Attr) : Bool :=
  a.reqOp = Msg.readNoSnp || a.reqOp = Msg.writeNoSnpPtl || a.reqOp = Msg.writeUniquePtl || isAtomic a

/-- The extension with the address bits 5:0. -/
def placeExt1 (m : IMsg) : Except Fault (List (BitVec 32)) :=
  if m.extType1Required then
    if extType1Allowed m.attr then do
      return [← word [(IMsg.extType, Msg.extType1), (IMsg.address_5_0, (m.address.setWidth 32) &&& fieldMask 6)]]
    else .error .assertion
  else .ok []

/-- `MsgReq(gp)`. -/
def create (m : IMsg) : Except Fault (List (BitVec 32)) := do
  let w ← word [(IMsg.ext, ofBool (m.extType0Required || m.extType1Required)), (IMsg.msgType, m.attr.msgType.setWidth 32), (IMsg.msgLen, 0),
    (txnID, m.attr.txnID.setWidth 32), (rsvd0_0, 0), (reqOp, m.attr.reqOp.setWidth 32)]
  let e₀ ← m.placeExt0 m.extType1Required
  let e₁ ← placeExt1 m
  let w₁ ← word [(reqAttr, m.attr.reqAttr.setWidth 32), (rsvd2_0, 0), (address_51_32, m.addressHigh)]
  let w₂ ← word [(address_31_6, (m.address >>> 6).setWidth 32), (rsvd3_0, 0), (ns, ofBool !m.attr.secure), (qoS, m.attr.qoS.setWidth 32)]
  let t ← m.tail (hasByteEnables m.attr)
  setMsgLen w (e₀ ++ e₁ ++ [w₁, w₂] ++ t)

end MsgReq

namespace MsgRsp

/-- `IsSnpRespDataPtl`. -/
def isSnpRespDataPtl (a : Attr) : Bool := a.msgType = Msg.typeSnpResp && (a.respOp = 0x2 || a.respOp = 0x3)

/-- `MsgRsp(gp)`. -/
def create (m : IMsg) : Except Fault (List (BitVec 32)) := do
  let w ← word [(IMsg.ext, 0), (IMsg.msgType, m.attr.msgType.setWidth 32), (IMsg.msgLen, 0), (txnID, m.attr.txnID.setWidth 32), (rsvd0_0, 0),
    (respAttr, m.attr.respAttr.setWidth 32), (rsvd0_1, 0), (respOp, m.attr.respOp.setWidth 32)]
  let t ← m.tail (isSnpRespDataPtl m.attr)
  setMsgLen w t

end MsgRsp

namespace MsgSnpReq

/-- `MsgSnpReq(gp)`. -/
def create (m : IMsg) : Except Fault (List (BitVec 32)) := do
  let w ← word [(IMsg.ext, ofBool m.extType0Required), (IMsg.msgType, m.attr.msgType.setWidth 32), (IMsg.msgLen, 0),
    (txnID, m.attr.txnID.setWidth 32), (rsvd0_0, 0), (snpCast, m.attr.snpCast.setWidth 32), (dr, ofBool m.attr.dataRet),
    (snpOp, m.attr.snpOp.setWidth 32)]
  let e₀ ← m.placeExt0 false
  if m.extType1Required then .error .assertion
  let w₁ ← word [(rsvd2_0, 0), (address_51_32, m.addressHigh)]
  let w₂ ← word [(address_31_6, (m.address >>> 6).setWidth 32), (rsvd3_0, 0), (ns, ofBool !m.attr.secure), (rsvd3_1, 0)]
  setMsgLen w (e₀ ++ [w₁, w₂])

end MsgSnpReq

/-- `MsgCrdEx(gp)`. -/
def MsgCrdEx.create (m : IMsg) : Except Fault (List (BitVec 32)) := do
  let w ← word [(IMsg.ext, 0), (IMsg.msgType, m.attr.msgType.setWidth 32), (IMsg.msgLen, 0), (rsvd0_0, 0), (miscOp, m.attr.miscOp.setWidth 32),
    (dataCredit, m.attr.dataCredit), (reqCredit, m.attr.reqCredit)]
  let w₁ ← word [(rsvd1_0, 0), (miscCredit, m.attr.miscCredit), (snpCredit, m.attr.snpCredit)]
  setMsgLen w [w₁]

/-- `MsgNOP(gp)`. -/
def MsgNOP.create (m : IMsg) : Except Fault (List (BitVec 32)) := do
  let w ← word [(IMsg.ext, 0), (IMsg.msgType, m.attr.msgType.setWidth 32), (IMsg.msgLen, 0), (rsvd0_0, 0), (miscOp, m.attr.miscOp.setWidth 32),
    (rsvd0_1, 0)]
  setMsgLen w []

namespace MsgMiscCredited

/-- The first two bytes of the payload. -/
def firstBytes (a : Attr) : BitVec 32 := if a.payloadSz = 0 then 0 else (a.payload 0).setWidth 32 <<< 8 ||| (a.payload 1).setWidth 32

/-- `PlacePayload`, which ends in the middle of a word where the payload does. -/
def placePayload (a : Attr) : Except Fault (List (BitVec 32)) :=
  if a.payloadSz ≤ maxDataSz then
    .ok (arrayWords (fun i => if i + 2 < a.payloadSz then a.payload (i + 2) else 0) ((a.payloadSz - 2 + 3) / 4))
  else .error .outside

/-- `MsgMiscCredited(gp)`. -/
def create (m : IMsg) : Except Fault (List (BitVec 32)) := do
  let w ← word [(IMsg.ext, 0), (IMsg.msgType, m.attr.msgType.setWidth 32), (IMsg.msgLen, 0), (miscCredit, m.attr.miscCredit),
    (miscOp, m.attr.miscOp.setWidth 32)]
  let l ← placePayload m.attr
  setMsgLen (w ||| firstBytes m.attr) l

end MsgMiscCredited

/-- The message that `TLPFactory::Create` makes, if any. -/
def createMsg (m : IMsg) : Except Fault (List (BitVec 32)) :=
  if m.attr.msgType = Msg.typeReq then MsgReq.create m
  else if m.attr.msgType = Msg.typeSnpReq then MsgSnpReq.create m
  else if m.attr.msgType = Msg.typeResp ∨ m.attr.msgType = Msg.typeSnpResp then MsgRsp.create m
  else if m.attr.msgType = Msg.typeMiscUnCredited then
    if m.attr.miscOp = Msg.nop then MsgNOP.create m
    else if m.attr.miscOp = Msg.creditGrant ∨ m.attr.miscOp = Msg.creditReturn then MsgCrdEx.create m
    else .error .reported
  else if m.attr.msgType = Msg.typeMiscCredited then MsgMiscCredited.create m
  else .error .reported

/-! ### Extracting a message -/

/-- `get_next_uint32`, at `m_pos`. -/
def getNext (b : List (BitVec 8)) (pos : ℕ) : Except Fault (BitVec 32) :=
  match readWord b pos with
  | some w => .ok w
  | none => .error .outside

namespace IMsg

/-- `ExtractExtension`. -/
def extractExtension (w : BitVec 32) (m : IMsg) : IMsg :=
  if extType.get w = Msg.extType0 then
    { m with
      address := m.address ||| (address_63_60.get w).setWidth 64 <<< 60 ||| (address_59_52.get w).setWidth 64 <<< 52
      attr := { m.attr with tgtID := (ext0TgtID.get w).setWidth 8, srcID := (ext0SrcID.get w).setWidth 8 } }
  else if extType.get w = Msg.extType1 then { m with address := m.address ||| (address_5_0.get w).setWidth 64 }
  else if extType.get w = Msg.extType2 then { m with attr := { m.attr with user := user.get w } }
  else if extType.get w = Msg.extType6 then
    { m with
      attr := { m.attr with respErr := (respErr.get w).setWidth 8, poison0 := (poison0.get w).setWidth 8,
                            -- `SetPoison1(get_Poison0(ext))`
                            poison1 := (poison0.get w).setWidth 8 } }
  else m

/-- The loop of `ExtractExtensions`; each extension is a word of `b`. -/
def extractExtensions (b : List (BitVec 8)) : ℕ → BitVec 32 → IMsg → ℕ → Except Fault (IMsg × ℕ)
  | 0, w, m, pos => if ext.get w = 0 then .ok (m, pos) else .error .outside
  | n + 1, w, m, pos =>
    if ext.get w = 0 then .ok (m, pos)
    else do
      let w ← getNext b pos
      extractExtensions b n w (extractExtension w m) (pos + 4)

/-- `ParseByteEnables`: `m_pos` is on the last byte before it is aligned. -/
def parseByteEnables (b : List (BitVec 8)) (n : ℕ) (m : IMsg) (pos : ℕ) : Except Fault (IMsg × ℕ) :=
  if n ≤ cachelineSz ∧ ∀ i < n, pos + i / 8 < b.length then
    .ok ({ m with
           byteEnable := fun i => if i < n ∧ (b.getD (pos + i / 8) 0).getLsbD (i % 8) then byteEnabled else 0
           byteEnableLength := cachelineSz }, (pos + (n - 1) / 8 + 3) / 4 * 4)
  else .error .outside

/-- `ParseData`. -/
def parseData (b : List (BitVec 8)) (dataLen : ℕ) (m : IMsg) (pos : ℕ) : Except Fault IMsg :=
  if (dataLen + 3) / 4 * 4 ≤ cachelineSz ∧ ∀ i < (dataLen + 3) / 4 * 4, pos + i < b.length then
    .ok { m with data := fun i => if i < (dataLen + 3) / 4 * 4 then b.getD (pos + i) 0 else m.data i, dataLength := dataLen }
  else .error .outside

/-- `GetTailSize`, an `unsigned int`. -/
def getTailSize (m : IMsg) (pos : ℕ) : ℕ := (4 * m.attr.msgLen.toNat + 2 ^ 32 - pos) % 2 ^ 32

/-- The data that is left, if any, of a message that may have some. -/
def parseTail (b : List (BitVec 8)) (may : Bool) (m : IMsg) (pos : ℕ) : Except Fault IMsg :=
  if m.getTailSize pos = 0 then .ok m
  else if may then do return { (← parseData b (m.getTailSize pos) m pos) with write := true }
  else .error .assertion

/-- `IMsg(msg, defTgTID, defSrcID, msgCredit)`. -/
def ofHeader (tgtID srcID msgCredit : BitVec 8) (w : BitVec 32) : IMsg where
  attr := { tgtID, srcID, msgCredit, msgType := (msgType.get w).setWidth 8, msgLen := (msgLen.get w).setWidth 8 }

end IMsg

namespace MsgReq

/-- `IsReqChain`. -/
def isReqChain (a : Attr) : Bool := a.reqOp = Msg.reqChain

/-- `IsWrite`. -/
def isWrite (a : Attr) : Bool :=
  a.reqOp ∈ [Msg.writeNoSnpPtl, Msg.writeNoSnpFull, Msg.writeUniquePtl, Msg.writeUniqueFull, Msg.writeBackPtl, Msg.writeBackFullUD,
    Msg.writeBackFullSD, Msg.writeCleanFullSD, Msg.writeEvictFull]

/-- `get_size`. -/
def getSize (a : Attr) : Except Fault ℕ :=
  match (reqAttrSize.get (a.reqAttr.setWidth 32)).toNat with
  | 7 => .error .reported
  | 6 => .ok 64
  | 5 => .ok 32
  | 4 => .ok 16
  | _ => .ok 8

/-- What is behind the extensions of a request that is not chained. -/
def extractFields (b : List (BitVec 8)) (m : IMsg) (pos : ℕ) : Except Fault (IMsg × ℕ) := do
  let w₁ ← getNext b pos
  if isReqChain m.attr then .ok (m, pos + 4)
  else do
    let w₂ ← getNext b (pos + 4)
    return ({ m with
              attr := { m.attr with reqAttr := (reqAttr.get w₁).setWidth 8, secure := !(ns.get w₂ ≠ 0), qoS := (qoS.get w₂).setWidth 8 }
              address := m.address ||| (address_51_32.get w₁).setWidth 64 <<< 32 ||| (address_31_6.get w₂).setWidth 64 <<< 6 }, pos + 8)

/-- The byte enables, if there are any. -/
def extractByteEnables (b : List (BitVec 8)) (m : IMsg) (pos : ℕ) : Except Fault (IMsg × ℕ) :=
  if isReqChain m.attr then if m.getTailSize pos > cachelineSz then m.parseByteEnables b cachelineSz pos else .ok (m, pos)
  else if hasByteEnables m.attr then do m.parseByteEnables b (← getSize m.attr) pos
  else .ok (m, pos)

/-- `ExtractMessage`. -/
def extractMessage (b : List (BitVec 8)) (m : IMsg) : Except Fault IMsg := do
  let w ← getNext b 0
  let m := { m with attr := { m.attr with txnID := (txnID.get w).setWidth 16, reqOp := (reqOp.get w).setWidth 8 } }
  let (m, pos) ← IMsg.extractExtensions b b.length w m 4
  let (m, pos) ← extractFields b m pos
  let (m, pos) ← extractByteEnables b m pos
  m.parseTail b (isWrite m.attr || isAtomic m.attr || isReqChain m.attr) pos

end MsgReq

/-- A tail of more than a cacheline has byte enables. -/
def MsgRsp.extractByteEnables (b : List (BitVec 8)) (m : IMsg) (pos : ℕ) : Except Fault (IMsg × ℕ) :=
  if m.getTailSize pos > cachelineSz then m.parseByteEnables b cachelineSz pos else .ok (m, pos)

/-- `MsgRsp::ExtractMessage`. -/
def MsgRsp.extractMessage (b : List (BitVec 8)) (m : IMsg) : Except Fault IMsg := do
  let w ← getNext b 0
  let m := { m with attr := { m.attr with txnID := (txnID.get w).setWidth 16, respAttr := (respAttr.get w).setWidth 8,
                                          respOp := (respOp.get w).setWidth 8 } }
  let (m, pos) ← IMsg.extractExtensions b b.length w m 4
  let (m, pos) ← MsgRsp.extractByteEnables b m pos
  m.parseTail b true pos

namespace MsgSnpReq

/-- `IsSnpReqChain`. -/
def isSnpReqChain (a : Attr) : Bool := a.msgType = Msg.typeSnpReq && a.snpOp = Msg.snpChain

/-- What is behind the extensions. -/
def extractFields (b : List (BitVec 8)) (m : IMsg) (pos : ℕ) : Except Fault IMsg := do
  let w₁ ← getNext b pos
  if isSnpReqChain m.attr then .ok m
  else do
    let w₂ ← getNext b (pos + 4)
    return { m with
             attr := { m.attr with secure := !(ns.get w₂ ≠ 0) }
             address := m.address ||| (address_51_32.get w₁).setWidth 64 <<< 32 ||| (address_31_6.get w₂).setWidth 64 <<< 6 }

/-- `ExtractMessage`. -/
def extractMessage (b : List (BitVec 8)) (m : IMsg) : Except Fault IMsg := do
  let w ← getNext b 0
  let m := { m with attr := { m.attr with txnID := (txnID.get w).setWidth 16, dataRet := decide (dr.get w ≠ 0),
                                          snpOp := (snpOp.get w).setWidth 8 } }
  let (m, pos) ← IMsg.extractExtensions b b.length w m 4
  extractFields b m pos

end MsgSnpReq

/-- `MsgCrdEx::ExtractMessage`. -/
def MsgCrdEx.extractMessage (b : List (BitVec 8)) (m : IMsg) : Except Fault IMsg := do
  let w ← getNext b 0
  let w₁ ← getNext b 4
  return { m with attr := { m.attr with miscOp := (miscOp.get w).setWidth 8, dataCredit := dataCredit.get w, reqCredit := reqCredit.get w,
                                        miscCredit := miscCredit.get w₁, snpCredit := snpCredit.get w₁ } }

/-- `MsgNOP::ExtractMessage`. -/
def MsgNOP.extractMessage (b : List (BitVec 8)) (m : IMsg) : Except Fault IMsg := do
  let w ← getNext b 0
  return { m with attr := { m.attr with miscOp := (miscOp.get w).setWidth 8 } }

/-- `MsgMiscCredited::ExtractMessage`. -/
def MsgMiscCredited.extractMessage (b : List (BitVec 8)) (m : IMsg) : Except Fault IMsg := do
  let w ← getNext b 0
  let payloadSz := m.getTailSize 4
  if payloadSz + 2 ≤ maxDataSz ∧ 4 + payloadSz ≤ b.length then
    return { m with attr := { m.attr with miscCredit := miscCredit.get w, miscOp := (miscOp.get w).setWidth 8
                                          payload := fun i => if i = 0 then (payload0.get w).setWidth 8
                                            else if i = 1 then (payload1.get w).setWidth 8
                                            else if i < payloadSz + 2 then b.getD (i + 2) 0 else m.attr.payload i } }
  else .error .outside

/-! ### TLPs -/

/-- The template argument of a `TLP`: `TLPHdr_opt` or `TLPHdr_comp`. -/
inductive TLPHdr where
  | opt | comp
  deriving DecidableEq

namespace TLPHdr

def type : BitField := ⟨30, 1⟩
def msgCredit : BitField := ⟨24, 6⟩
def tc : BitField := ⟨20, 3⟩
def tgtID : BitField := ⟨14, 6⟩
def srcID : BitField := ⟨8, 6⟩
def length : BitField := ⟨0, 7⟩
def compFmt : BitField := ⟨29, 3⟩
def compType : BitField := ⟨24, 5⟩
def compLength : BitField := ⟨0, 10⟩
def msgCode : BitField := ⟨0, 8⟩

/-- `TLPHdr_Size` in words. -/
def size : TLPHdr → ℕ
  | opt => 1
  | comp => 4

/-- The header before a message of `len` words. The fields that are always set to zero are left out. -/
def create (a : Attr) (len : ℕ) : TLPHdr → Except Fault (List (BitVec 32))
  | opt => do
    return [← word [(type, 0x1), (msgCredit, a.msgCredit.setWidth 32), (tc, 0x7), (tgtID, a.tgtID.setWidth 32), (srcID, a.srcID.setWidth 32),
      (length, BitVec.ofNat 32 len)]]
  | comp => do
    return [← word [(compFmt, 0x3), (compType, 0x12), (tc, 0x7), (compLength, BitVec.ofNat 32 len)], ← word [(msgCode, 0x7f)], 0,
      ← word [(msgCredit, a.msgCredit.setWidth 32), (tgtID, a.tgtID.setWidth 32), (srcID, a.srcID.setWidth 32)]]

end TLPHdr

/-- `TLPFactory::Create`: the bytes of the TLP. -/
def createTLP (k : TLPHdr) (m : IMsg) : Except Fault (List (BitVec 8)) := do
  let ws ← createMsg m
  let hdr ← k.create m.attr ws.length
  return bytesOf (hdr ++ ws)

namespace TLPAssembler

/-- The message of its type, in the `switch` of `ExtractCCIXMessage`. -/
def newMsg (w : BitVec 32) (b : List (BitVec 8)) (m : IMsg) : Except Fault IMsg :=
  let miscOp := (getField 16 3 w).setWidth 8
  if m.attr.msgType = Msg.typeReq then MsgReq.extractMessage b m
  else if m.attr.msgType = Msg.typeSnpReq then MsgSnpReq.extractMessage b m
  else if m.attr.msgType = Msg.typeResp ∨ m.attr.msgType = Msg.typeSnpResp then MsgRsp.extractMessage b m
  else if m.attr.msgType = Msg.typeMiscUnCredited then
    if miscOp = Msg.nop then MsgNOP.extractMessage b m
    else if miscOp = Msg.creditGrant ∨ miscOp = Msg.creditReturn then MsgCrdEx.extractMessage b m
    else .error .reported
  else if m.attr.msgType = Msg.typeMiscCredited then MsgMiscCredited.extractMessage b m
  else .error .reported

/-- `ExtractCCIXMessage`. -/
def extractCCIXMessage (tgtID srcID msgCredit : BitVec 8) (b : List (BitVec 8)) : Except Fault IMsg :=
  if b.length < 4 then .error .assertion
  else do
    let w ← getNext b 0
    newMsg w b (IMsg.ofHeader tgtID srcID msgCredit w)

/-- `LookupPrev`. -/
def lookupPrev (l : List IMsg) (msgType : BitVec 8) : Option IMsg := l.reverse.find? fun m => m.attr.msgType = msgType

/-- `SetupReqChain` and `SetupSnpReqChain`. -/
def setupChain (msgType : BitVec 8) (l : List IMsg) (m : IMsg) : Except Fault IMsg :=
  match lookupPrev l msgType with
  | some prev => .ok { m with write := prev.write, address := prev.address + 64, attr := prev.attr }
  | none => .error .reported

/-- A message that is chained gets what it lacks from the one before it. -/
def setup (l : List IMsg) (m : IMsg) : Except Fault IMsg :=
  if m.attr.msgType = Msg.typeReq ∧ MsgReq.isReqChain m.attr then setupChain Msg.typeReq l m
  else if MsgSnpReq.isSnpReqChain m.attr then setupChain Msg.typeSnpReq l m
  else .ok m

/-- The loop of `ExtractCCIXMessages`, at most `n` times. -/
def extractFrom (tgtID srcID : BitVec 8) : ℕ → BitVec 8 → List (BitVec 8) → List IMsg → Except Fault (List IMsg)
  | _, _, [], l => .ok l
  | 0, _, _ :: _, _ => .error .diverges
  | n + 1, msgCredit, b, l => do
    let m ← extractCCIXMessage tgtID srcID msgCredit b
    let m ← setup l m
    -- `m_msgCredit = 0`
    extractFrom tgtID srcID n 0 (b.drop (4 * m.attr.msgLen.toNat)) (l ++ [m])

/-- `ExtractCCIXMessages`: the messages of a TLP are put behind those of `l`. A message without a length is
extracted again and again. -/
def extractCCIXMessages (k : TLPHdr) (b : List (BitVec 8)) (l : List IMsg) : Except Fault (List IMsg) := do
  let w ← getNext b (4 * (k.size - 1))
  extractFrom ((TLPHdr.tgtID.get w).setWidth 8) ((TLPHdr.srcID.get w).setWidth 8) b.length ((TLPHdr.msgCredit.get w).setWidth 8)
    (b.drop (4 * k.size)) l

end TLPAssembler

end LibSystemCTLM.Ccix
