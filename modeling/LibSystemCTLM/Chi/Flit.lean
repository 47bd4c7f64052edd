import LibSystemCTLM.Foundation.Bits

/-!
# CHI flits

`ReqPkt`, `RspPkt`, `SnpPkt` and `DatPkt` make a flit of a transaction and its `chiattr_extension`
(`CreateFlit`), and parse a flit they have received (`ParseFlit`).

## The model

A packet is the record of what its flit is made of: the attributes it reads, in the types
`chiattr_extension` has for them, and what it reads of the payload. A flit is a row of `Bits`,
all clear before the first field is set. `Set` and `Extract` move `m_pos`; what they mask a value
with is computed as the source computes it, with a shift of a `1` of some type. A shift by the
width of the type or more is undefined in C++: what comes out of it is the parameter `u`
(`Overlong`), and `x86` is what a shift instruction makes of it.

A `DatPkt` keeps `m_pos` and `m_sent` from one flit to the next. The assertion at the head of
`CreateFlit` and SystemC's check of a range are the ways in which there is no flit.

## Honest scope

A packet without the extension, whose flit is all zero, and the streaming width, which nobody sets
apart from the length, are left out.
-/

namespace LibSystemCTLM.Chi

open Foundation

/-! ### Setting and extracting -/

/-- What `1 << n` in a type of `t` bits gives where `t ≤ n`. -/
abbrev Overlong := (t : ℕ) → ℕ → BitVec t

/-- The shift instructions of x86 take the amount modulo the width. -/
def x86 : Overlong := fun t n => 1#t <<< (n % t)

/-- `1 << n` in a type of `t` bits. -/
def shl (u : Overlong) (t n : ℕ) : BitVec t := if n < t then 1#t <<< n else u t n

/-- The mask of `Set`: a type smaller than `int` is promoted. -/
def setMask (u : Overlong) (t w : ℕ) : BitVec t := (shl u (max t 32) w - 1).setWidth t

/-- The mask of `Extract`, `(1 << width) - 1`, an `int` that becomes a `uint64_t`. -/
def intMask (u : Overlong) (w : ℕ) : BitVec 64 := (shl u 32 w - 1).signExtend 64

/-- The mask of `SnpPkt`'s `Extract`, `(static_cast<T>(1) << width) - 1`. -/
def typedMask (u : Overlong) (t w : ℕ) : BitVec 64 := (shl u (max t 32) w - 1).signExtend 64

/-- `Set`. -/
def set (u : Overlong) {t : ℕ} (val : BitVec t) (w : ℕ) : Slot := ⟨w, fun i => (val &&& setMask u t w).getLsbD i⟩

/-- `Set` of a `bool`. -/
def setBool (val : Bool) : Slot := ⟨1, fun _ => val⟩

/-- `Extract`, with the mask it is given. -/
def extractWith (mask : BitVec 64) (flit : Bits) (t w : ℕ) : Reader (BitVec t) := fun pos =>
  ((Bits.slice 64 flit pos w &&& mask).setWidth t, pos + w)

/-- `Extract`. -/
def extract (u : Overlong) (flit : Bits) (t w : ℕ) : Reader (BitVec t) := extractWith (intMask u w) flit t w

/-- `ExtractBool`. -/
def extractBool (flit : Bits) : Reader Bool := fun pos => (flit pos, pos + 1)

/-- `if (RSVDC_WIDTH)` and the like: a field without a width is not set, -/
def setIf (w : ℕ) (s : Slot) : List Slot := if w = 0 then [] else [s]

/-- and is not extracted. -/
def extractIf (w : ℕ) {t : ℕ} (x : Reader (BitVec t)) : Reader (BitVec t) := if w = 0 then pure 0 else x

/-- The template arguments of a port. Every field is at most as wide as the type that keeps it. -/
structure Config where
  addrWidth : ℕ
  nodeIdWidth : ℕ
  /-- `DATA_WIDTH / 8`. -/
  dataBytes : ℕ
  rsvdcWidth : ℕ
  dataCheckWidth : ℕ
  poisonWidth : ℕ
  datOpcodeWidth : ℕ
  addrWidth_ge : 3 < addrWidth := by decide
  addrWidth_le : addrWidth ≤ 64 := by decide
  nodeIdWidth_pos : 0 < nodeIdWidth := by decide
  nodeIdWidth_le : nodeIdWidth ≤ 16 := by decide
  dataBytes_pos : 0 < dataBytes := by decide
  rsvdcWidth_le : rsvdcWidth ≤ 32 := by decide
  dataCheckWidth_le : dataCheckWidth ≤ 64 := by decide
  poisonWidth_le : poisonWidth ≤ 8 := by decide
  datOpcodeWidth_pos : 0 < datOpcodeWidth := by decide
  datOpcodeWidth_le : datOpcodeWidth ≤ 8 := by decide

/-! ### Requests -/

/-- What the flit of a request is made of. -/
structure ReqPkt where
  qoS : BitVec 8
  tgtID : BitVec 16
  srcID : BitVec 16
  txnID : BitVec 8
  returnNID_StashNID : BitVec 16
  stashNIDValid_Endian : Bool
  returnTxnID : BitVec 8
  opcode : BitVec 8
  dataLength : ℕ
  address : BitVec 64
  secure : Bool
  likelyShared : Bool
  allowRetry : Bool
  order : BitVec 8
  pCrdType : BitVec 8
  allocate : Bool
  cacheable : Bool
  deviceMemory : Bool
  earlyWrAck : Bool
  snpAttr : Bool
  lpid : BitVec 8
  excl_SnoopMe : Bool
  expCompAck : Bool
  traceTag : Bool
  rsvdc : BitVec 32

namespace ReqPkt

/-- `GetSize`. -/
def getSize (p : ReqPkt) : BitVec 8 :=
  match p.dataLength with
  | 64 => 6
  | 32 => 5
  | 16 => 4
  | 8 => 3
  | 4 => 2
  | 2 => 1
  | _ => 0

/-- `GetMemAttr`. -/
def getMemAttr (p : ReqPkt) : BitVec 8 :=
  (if p.allocate then 1 <<< 3 else 0) ||| (if p.cacheable then 1 <<< 2 else 0) ||| (if p.deviceMemory then 1 <<< 1 else 0) |||
    if p.earlyWrAck then 1 else 0

/-- The `Set`s of `CreateFlit`. -/
def slots (u : Overlong) (c : Config) (p : ReqPkt) : List Slot :=
  [set u p.qoS 4, set u p.tgtID c.nodeIdWidth, set u p.srcID c.nodeIdWidth, set u p.txnID 8,
    set u p.returnNID_StashNID c.nodeIdWidth, setBool p.stashNIDValid_Endian, set u p.returnTxnID 8, set u p.opcode 6,
    set u p.getSize 3, set u p.address c.addrWidth, setBool !p.secure, setBool p.likelyShared, setBool p.allowRetry, set u p.order 2,
    set u p.pCrdType 4, set u p.getMemAttr 4, setBool p.snpAttr, set u p.lpid 5, setBool p.excl_SnoopMe, setBool p.expCompAck,
    setBool p.traceTag] ++ setIf c.rsvdcWidth (set u p.rsvdc c.rsvdcWidth)

/-- `FLIT_WIDTH`. -/
def flitWidth (c : Config) : ℕ :=
  4 + c.nodeIdWidth + c.nodeIdWidth + 8 + c.nodeIdWidth + 1 + 8 + 6 + 3 + c.addrWidth + 1 + 1 + 1 + 2 + 4 + 4 + 1 + 5 + 1 + 1 + 1 +
    c.rsvdcWidth

/-- `CreateFlit`: the flit, and `m_pos` in the end. -/
def createFlit (u : Overlong) (c : Config) (p : ReqPkt) : Bits × ℕ := Bits.putAll (p.slots u c) (fun _ => false, 0)

/-- `ParseFlit`. -/
def parse (u : Overlong) (c : Config) (flit : Bits) : Reader ReqPkt := do
  let qoS ← extract u flit 8 4
  let tgtID ← extract u flit 16 c.nodeIdWidth
  let srcID ← extract u flit 16 c.nodeIdWidth
  let txnID ← extract u flit 8 8
  let returnNID_StashNID ← extract u flit 16 c.nodeIdWidth
  let stashNIDValid_Endian ← extractBool flit
  let returnTxnID ← extract u flit 8 8
  let opcode ← extract u flit 8 6
  let size ← extract u flit 8 3
  let address ← extract u flit 64 c.addrWidth
  let nonSecure ← extractBool flit
  let likelyShared ← extractBool flit
  let allowRetry ← extractBool flit
  let order ← extract u flit 8 2
  let pCrdType ← extract u flit 8 4
  let memAttr ← extract u flit 8 4
  let snpAttr ← extractBool flit
  let lpid ← extract u flit 16 5
  let excl_SnoopMe ← extractBool flit
  let expCompAck ← extractBool flit
  let traceTag ← extractBool flit
  let rsvdc ← extractIf c.rsvdcWidth (extract u flit 32 c.rsvdcWidth)
  return { qoS, tgtID, srcID, txnID, returnNID_StashNID, stashNIDValid_Endian, returnTxnID, opcode, address, likelyShared, allowRetry, order,
           pCrdType, snpAttr, excl_SnoopMe, expCompAck, traceTag, rsvdc
           dataLength := 2 ^ size.toNat
           secure := !nonSecure
           allocate := memAttr.getLsbD 3
           cacheable := memAttr.getLsbD 2
           deviceMemory := memAttr.getLsbD 1
           earlyWrAck := memAttr.getLsbD 0
           lpid := lpid.setWidth 8 }

end ReqPkt

/-! ### Responses -/

/-- What the flit of a response is made of. -/
structure RspPkt where
  qoS : BitVec 8
  tgtID : BitVec 16
  srcID : BitVec 16
  txnID : BitVec 8
  opcode : BitVec 8
  respErr : BitVec 8
  resp : BitVec 8
  fwdState_DataPull : BitVec 8
  dbid : BitVec 8
  pCrdType : BitVec 8
  traceTag : Bool

namespace RspPkt

/-- The `Set`s of `CreateFlit`. -/
def slots (u : Overlong) (c : Config) (p : RspPkt) : List Slot :=
  [set u p.qoS 4, set u p.tgtID c.nodeIdWidth, set u p.srcID c.nodeIdWidth, set u p.txnID 8, set u p.opcode 4, set u p.respErr 2,
    set u p.resp 3, set u p.fwdState_DataPull 3, set u p.dbid 8, set u p.pCrdType 4, setBool p.traceTag]

/-- `FLIT_WIDTH`. -/
def flitWidth (c : Config) : ℕ := 4 + c.nodeIdWidth + c.nodeIdWidth + 8 + 4 + 2 + 3 + 3 + 8 + 4 + 1

/-- `CreateFlit`: the flit, and `m_pos` in the end. -/
def createFlit (u : Overlong) (c : Config) (p : RspPkt) : Bits × ℕ := Bits.putAll (p.slots u c) (fun _ => false, 0)

/-- `ParseFlit`. -/
def parse (u : Overlong) (c : Config) (flit : Bits) : Reader RspPkt := do
  let qoS ← extract u flit 8 4
  let tgtID ← extract u flit 16 c.nodeIdWidth
  let srcID ← extract u flit 16 c.nodeIdWidth
  let txnID ← extract u flit 8 8
  let opcode ← extract u flit 8 4
  let respErr ← extract u flit 8 2
  let resp ← extract u flit 8 3
  let fwdState_DataPull ← extract u flit 8 3
  let dbid ← extract u flit 8 8
  let pCrdType ← extract u flit 8 4
  let traceTag ← extractBool flit
  return { qoS, tgtID, srcID, txnID, opcode, respErr, resp, fwdState_DataPull, dbid, pCrdType, traceTag }

end RspPkt

/-! ### Snoops -/

/-- What the flit of a snoop is made of. -/
structure SnpPkt where
  qoS : BitVec 8
  srcID : BitVec 16
  txnID : BitVec 8
  fwdNID : BitVec 16
  fwdTxnID : BitVec 8
  opcode : BitVec 8
  address : BitVec 64
  secure : Bool
  doNotGoToSD : Bool
  retToSrc : Bool
  traceTag : Bool

namespace SnpPkt

/-- The `Set`s of `CreateFlit`. The port's address is three bits shorter than the payload's. -/
def slots (u : Overlong) (c : Config) (p : SnpPkt) : List Slot :=
  [set u p.qoS 4, set u p.srcID c.nodeIdWidth, set u p.txnID 8, set u p.fwdNID c.nodeIdWidth, set u p.fwdTxnID 8, set u p.opcode 5,
    set u (p.address >>> 3) (c.addrWidth - 3), setBool !p.secure, setBool p.doNotGoToSD, setBool p.retToSrc, setBool p.traceTag]

/-- `FLIT_WIDTH`. -/
def flitWidth (c : Config) : ℕ := 4 + c.nodeIdWidth + 8 + c.nodeIdWidth + 8 + 5 + (c.addrWidth - 3) + 1 + 1 + 1 + 1

/-- `CreateFlit`: the flit, and `m_pos` in the end. -/
def createFlit (u : Overlong) (c : Config) (p : SnpPkt) : Bits × ℕ := Bits.putAll (p.slots u c) (fun _ => false, 0)

/-- `Extract` of `SnpPkt`, whose mask is of the type that is extracted. -/
def extract (u : Overlong) (flit : Bits) (t w : ℕ) : Reader (BitVec t) := extractWith (typedMask u t w) flit t w

/-- `ParseFlit`. -/
def parse (u : Overlong) (c : Config) (flit : Bits) : Reader SnpPkt := do
  let qoS ← extract u flit 8 4
  let srcID ← extract u flit 16 c.nodeIdWidth
  let txnID ← extract u flit 8 8
  let fwdNID ← extract u flit 16 c.nodeIdWidth
  let fwdTxnID ← extract u flit 16 8
  let opcode ← extract u flit 8 5
  let addr ← extract u flit 64 (c.addrWidth - 3)
  let nonSecure ← extractBool flit
  let doNotGoToSD ← extractBool flit
  let retToSrc ← extractBool flit
  let traceTag ← extractBool flit
  return { qoS, srcID, txnID, fwdNID, opcode, doNotGoToSD, retToSrc, traceTag
           fwdTxnID := fwdTxnID.setWidth 8
           address := addr <<< 3
           secure := !nonSecure }

end SnpPkt

/-! ### Data -/

/-- `TLM_BYTE_ENABLED`. -/
def byteEnabled : BitVec 8 := 0xff

/-- What the flit of a data packet is made of. Without byte enables, `byteEnableLength` is zero. -/
structure DatPkt where
  qoS : BitVec 8
  tgtID : BitVec 16
  srcID : BitVec 16
  txnID : BitVec 8
  homeNID : BitVec 16
  opcode : BitVec 8
  respErr : BitVec 8
  resp : BitVec 8
  fwdState_DataPull_DataSource : BitVec 8
  dbid : BitVec 8
  ccid : BitVec 8
  dataID : BitVec 8
  traceTag : Bool
  rsvdc : BitVec 32
  dataCheck : BitVec 64
  poison : BitVec 8
  data : ℕ → BitVec 8
  dataLength : ℕ
  byteEnable : ℕ → BitVec 8
  byteEnableLength : ℕ

/-- Why there is no flit. -/
inductive FlitFault where
  /-- `assert(m_pos == 0)`. -/
  | assertion
  /-- A range that reaches over the end of the flit. -/
  | outOfRange
  deriving DecidableEq

/-- `m_sent`, `m_pos` and `m_flitDone` of a `DatPkt`. -/
structure DatState where
  sent : ℕ := 0
  pos : ℕ := 0
  flitDone : Bool := false
  deriving DecidableEq

namespace DatPkt

/-- Byte `i` of the data is enabled. -/
def enabled (p : DatPkt) (i : ℕ) : Bool :=
  decide (p.byteEnableLength = 0) || decide (p.byteEnable (i % p.byteEnableLength) = byteEnabled)

/-- The `Set`s of `CreateFlit` in front of the byte enables. -/
def headSlots (u : Overlong) (c : Config) (p : DatPkt) (sent : ℕ) : List Slot :=
  [set u p.qoS 4, set u p.tgtID c.nodeIdWidth, set u p.srcID c.nodeIdWidth, set u p.txnID 8, set u p.homeNID c.nodeIdWidth,
    set u p.opcode c.datOpcodeWidth, set u p.respErr 2, set u p.resp 3, set u p.fwdState_DataPull_DataSource 3, set u p.dbid 8,
    set u p.ccid 2, set u (BitVec.ofNat 8 (sent / c.dataBytes)) 2, setBool p.traceTag] ++
      setIf c.rsvdcWidth (set u p.rsvdc c.rsvdcWidth)

/-- `SetByteEnable`: all lanes up to the data length if there are no byte enables. -/
def byteEnableSlot (c : Config) (p : DatPkt) (sent : ℕ) : Slot where
  width := c.dataBytes
  bit i :=
    if p.byteEnableLength ≠ 0 then decide (p.byteEnable ((i + sent) % p.byteEnableLength) = byteEnabled)
    else decide (i < p.dataLength)

/-- A byte of the data. -/
def dataSlot (p : DatPkt) (i : ℕ) : Slot := ⟨8, fun j => (p.data i).getLsbD j⟩

/-- The bytes of the data that `SetData` reads: `for (i = 0; i <= len; i++)`. -/
def dataReads (c : Config) (p : DatPkt) : List ℕ := List.range (min p.dataLength c.dataBytes + 1)

/-- The bytes that `SetData` sets. -/
def dataSlots (c : Config) (p : DatPkt) : List Slot := (p.dataReads c).map p.dataSlot

/-- The `Set`s of `CreateFlit` behind the data. -/
def tailSlots (u : Overlong) (c : Config) (p : DatPkt) : List Slot :=
  setIf c.dataCheckWidth (set u p.dataCheck c.dataCheckWidth) ++ setIf c.poisonWidth (set u p.poison c.poisonWidth)

/-- `FLIT_WIDTH`. -/
def flitWidth (c : Config) : ℕ :=
  4 + c.nodeIdWidth + c.nodeIdWidth + 8 + c.nodeIdWidth + c.datOpcodeWidth + 2 + 3 + 3 + 8 + 2 + 2 + 1 + c.rsvdcWidth + c.dataBytes +
    8 * c.dataBytes + c.dataCheckWidth + c.poisonWidth

/-- `SetData`. -/
def setData (c : Config) (p : DatPkt) (cur : Bits × ℕ) : Except FlitFault (Bits × ℕ) :=
  if cur.2 + Bits.total (p.dataSlots c) ≤ flitWidth c then .ok ((Bits.putAll (p.dataSlots c) cur).1, cur.2 + 8 * c.dataBytes)
  else .error .outOfRange

/-- `CreateFlit`. -/
def createFlit (u : Overlong) (c : Config) (p : DatPkt) (s : DatState) : Except FlitFault (Bits × DatState) := do
  if s.pos ≠ 0 then .error .assertion
  else
    let cur := Bits.putAll (p.headSlots u c s.sent ++ [p.byteEnableSlot c s.sent]) (fun _ => false, s.pos)
    let cur ← p.setData c cur
    let cur := Bits.putAll (p.tailSlots u c) cur
    return (cur.1, { sent := s.sent + c.dataBytes, pos := cur.2, flitDone := decide (p.dataLength ≤ s.sent + c.dataBytes) })

/-- `ExtractByteEnable`. -/
def extractByteEnable (c : Config) (flit : Bits) : Reader (ℕ → BitVec 8) := fun pos =>
  (fun i => if i < c.dataBytes ∧ flit (pos + i) = true then byteEnabled else 0, pos + c.dataBytes)

/-- `ExtractData`. -/
def extractData (u : Overlong) (c : Config) (flit : Bits) : Reader (ℕ → BitVec 8) := fun pos =>
  (fun i => if i < c.dataBytes then (extract u flit 8 8 (pos + 8 * i)).1 else 0, pos + 8 * c.dataBytes)

/-- `ParseFlit`. -/
def parse (u : Overlong) (c : Config) (flit : Bits) : Reader DatPkt := do
  let qoS ← extract u flit 8 4
  let tgtID ← extract u flit 16 c.nodeIdWidth
  let srcID ← extract u flit 16 c.nodeIdWidth
  let txnID ← extract u flit 8 8
  let homeNID ← extract u flit 16 c.nodeIdWidth
  let opcode ← extract u flit 8 c.datOpcodeWidth
  let respErr ← extract u flit 8 2
  let resp ← extract u flit 8 3
  let fwdState_DataPull_DataSource ← extract u flit 8 3
  let dbid ← extract u flit 8 8
  let ccid ← extract u flit 8 2
  let dataID ← extract u flit 8 2
  let traceTag ← extractBool flit
  -- a `uint8_t`, unlike that of `ReqPkt`
  let rsvdc ← extractIf c.rsvdcWidth (extract u flit 8 c.rsvdcWidth)
  let byteEnable ← extractByteEnable c flit
  let data ← extractData u c flit
  let dataCheck ← extractIf c.dataCheckWidth (extract u flit 64 c.dataCheckWidth)
  let poison ← extractIf c.poisonWidth (extract u flit 8 c.poisonWidth)
  return { qoS, tgtID, srcID, txnID, homeNID, opcode, respErr, resp, fwdState_DataPull_DataSource, dbid, ccid, dataID, traceTag, dataCheck,
           poison, data, byteEnable
           rsvdc := rsvdc.setWidth 32
           dataLength := c.dataBytes
           byteEnableLength := c.dataBytes }

end DatPkt

end LibSystemCTLM.Chi
