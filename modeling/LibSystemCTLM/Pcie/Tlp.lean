import LibSystemCTLM.Foundation.Words
import LibSystemCTLM.Tlm.Payload

/-!
# The TLPs of `tlm2tlp_bridge`

A bridge between TLM payloads and PCIe transaction layer packets (`tlm2tlp-bridge.h`): the TLP of a
memory or configuration request, the TLP of a completion, the constructors that take a received TLP
apart, and the DMA payloads a received memory request becomes.

## The model

A TLP is built as the list of its DWs (`m_hdr`). `ByteSwap` leaves the most significant byte of each
DW first, whatever the host, so a TLP is sent as `bytesOf` its DWs. A constructor whose assertion
fails, that reads behind a buffer or shifts by more than a word has, builds none.

`request` is what a payload on `cfg_tgt_socket` or `mem_tgt_socket` becomes, `bTransport` is
`b_transport` of the TLP side, and `dma` the payload that `dma_thread` issues.

## Honest scope

Waiting and the delays are left out, as are the I/O and message sockets, which only report an error.
A payload without the attribute extension has the attributes the bridge takes then, both zero. A
completer of configuration requests is not part of the bridge; `cfgAddress` is the register its
header names.
-/

namespace LibSystemCTLM.Pcie

open Foundation Tlm

/-! ### `PCI::TLP` -/

def tlpHdr3DWSz : ℕ := 12
def tlpHdr4DWSz : ℕ := 16
def tlpHdrCplSz : ℕ := tlpHdr3DWSz

def typeMRdWr : BitVec 32 := 0
def typeCfgRdWrType0 : BitVec 32 := 4
def typeCpl : BitVec 32 := 10

def fmt3DWNoData : BitVec 32 := 0
def fmt4DWNoData : BitVec 32 := 1
def fmt3DWWithData : BitVec 32 := 2
def fmt4DWWithData : BitVec 32 := 3

def cplSC : BitVec 32 := 0
def cplUR : BitVec 32 := 1

def sz4K : ℕ := 4096
def maxDWLen : ℕ := 1024

/-! ### Fields -/

/-- `set_` of a field. -/
def set (f : BitField) (v : BitVec 32) : Option (BitVec 32) :=
  if v &&& ~~~ fieldMask f.width = 0 then some ((v &&& fieldMask f.width) <<< f.shift) else none

/-- The fields that are set, joined by `|`. -/
def word : List (BitField × BitVec 32) → Option (BitVec 32)
  | [] => some 0
  | (f, v) :: l => do return (← set f v) ||| (← word l)

namespace TLPHdr

def fmt : BitField := ⟨29, 3⟩
def type : BitField := ⟨24, 5⟩
def t9 : BitField := ⟨23, 1⟩
def tc : BitField := ⟨20, 3⟩
def t8 : BitField := ⟨19, 1⟩
def attr2 : BitField := ⟨18, 1⟩
def ln : BitField := ⟨17, 1⟩
def th : BitField := ⟨16, 1⟩
def td : BitField := ⟨15, 1⟩
def ep : BitField := ⟨14, 1⟩
def attr10 : BitField := ⟨12, 2⟩
def at' : BitField := ⟨10, 2⟩
def length : BitField := ⟨0, 10⟩
def fmtDataBit : BitField := ⟨30, 1⟩

/-- Bits [31:0] of a header. -/
def dw0 (fmt' type' length' : BitVec 32) : List (BitField × BitVec 32) :=
  [(fmt, fmt'), (type, type'), (t9, 0), (tc, 0), (t8, 0), (attr2, 0), (ln, 0), (th, 0), (td, 0), (ep, 0), (attr10, 0), (at', 0),
    (length, length')]

end TLPHdr

namespace TLPReq

/-! Bits [63:32] of a request. -/

def requestorID : BitField := ⟨16, 16⟩
def tag : BitField := ⟨8, 8⟩
def lastDWBE : BitField := ⟨4, 4⟩
def firstDWBE : BitField := ⟨0, 4⟩

end TLPReq

namespace TLPConf

def busNumber : BitField := ⟨24, 8⟩
def deviceNumber : BitField := ⟨19, 5⟩
def funcNumber : BitField := ⟨16, 3⟩
def rsvd1 : BitField := ⟨12, 4⟩
def extRegNum : BitField := ⟨8, 4⟩
def regNum : BitField := ⟨2, 6⟩
def rsvd0 : BitField := ⟨0, 2⟩

/-! The fields of an ECAM address. -/

def ecamAddrBus : BitField := ⟨20, 8⟩
def ecamAddrDev : BitField := ⟨15, 5⟩
def ecamAddrFn : BitField := ⟨12, 3⟩
def ecamAddrExtRegNum : BitField := ⟨8, 4⟩
def ecamAddrRegNum : BitField := ⟨2, 6⟩
def ecamAddrBE : BitField := ⟨0, 2⟩

end TLPConf

namespace TLPMem

def addr312 : BitField := ⟨2, 30⟩
def ph : BitField := ⟨0, 2⟩

end TLPMem

namespace TLPCpl

def completerID : BitField := ⟨16, 16⟩
def cplStatus : BitField := ⟨13, 3⟩
def bcm : BitField := ⟨12, 1⟩
def byteCount : BitField := ⟨0, 12⟩
def requestorID : BitField := ⟨16, 16⟩
def tag : BitField := ⟨8, 8⟩
def lowerAddress : BitField := ⟨0, 7⟩

end TLPCpl

/-! ### Requests -/

/-- The attributes of `genattr_extension` that a TLP carries. -/
structure Genattr where
  masterId : BitVec 64 := 0
  transactionId : BitVec 32 := 0
  deriving DecidableEq

/-- `dlen`: the DWs of a number of bytes. -/
def dwLen (n : ℕ) : ℕ := if n % 4 = 0 then n / 4 else n / 4 + 1

/-- `set_length`'s argument for a number of DWs. -/
def lengthField (dlen : ℕ) : BitVec 32 := if dlen = maxDWLen then 0 else BitVec.ofNat 32 dlen

/-- `mask |= 1 << (start + i)` for the enabled bytes `i` among the `n` from `i₀` on. -/
def beBits (enabled : ℕ → Bool) (start i₀ : ℕ) : ℕ → Option (BitVec 32)
  | 0 => some 0
  | n + 1 => do
    let mask ← beBits enabled start i₀ n
    if enabled (i₀ + n) = true then
      if start + (i₀ + n) < 32 then some (mask ||| 1#32 <<< (start + (i₀ + n))) else none
    else some mask

section Requests

variable (gp : GenericPayload) (g : Genattr)

/-- A byte of the buffer. -/
def byte? (i : ℕ) : Option Byte := if i < gp.dataLength then some (gp.data i) else none

/-- Bits [63:32] of a request. -/
def reqDW1 (lastDWBE firstDWBE : BitVec 32) : List (BitField × BitVec 32) :=
  [(TLPReq.requestorID, g.masterId.setWidth 32), (TLPReq.tag, g.transactionId), (TLPReq.lastDWBE, lastDWBE), (TLPReq.firstDWBE, firstDWBE)]

/-- The data of a configuration write: `d[i] << shift`, where `shift` is an `uint32_t`. -/
def confData (start : ℕ) : ℕ → Option (BitVec 32)
  | 0 => some 0
  | n + 1 => do
    let val ← confData start n
    let shift := (3 - BitVec.ofNat 32 start - BitVec.ofNat 32 n) * 8
    if shift.toNat < 32 then some (val ||| (← byte? gp n).setWidth 32 <<< shift.toNat) else none

/-- Bits [95:64] of a configuration request. -/
def confDW2 (addr : BitVec 32) : List (BitField × BitVec 32) :=
  [(TLPConf.busNumber, TLPConf.ecamAddrBus.get addr), (TLPConf.deviceNumber, TLPConf.ecamAddrDev.get addr),
    (TLPConf.funcNumber, TLPConf.ecamAddrFn.get addr), (TLPConf.rsvd1, 0), (TLPConf.extRegNum, TLPConf.ecamAddrExtRegNum.get addr),
    (TLPConf.regNum, TLPConf.ecamAddrRegNum.get addr), (TLPConf.rsvd0, 0)]

/-- `TLP_Conf(gp)`. -/
def tlpConf : Option (List (BitVec 32)) := do
  let addr := gp.address.setWidth 32
  let fmt := if gp.isWrite = true then fmt3DWWithData else fmt3DWNoData
  let dlen := min gp.dataLength 4
  let start := (TLPConf.ecamAddrBE.get addr).toNat
  let dw0 ← word (TLPHdr.dw0 fmt typeCfgRdWrType0 1)
  let firstDWBE ← beBits gp.enabled start 0 dlen
  let dw1 ← word (reqDW1 g 0 firstDWBE)
  let dw2 ← word (confDW2 addr)
  let data ← (if gp.isWrite = true then (confData gp start dlen).map fun val => [val] else some [])
  return dw0 :: dw1 :: dw2 :: data

/-- The data of a memory write. The tests are about the length of the whole buffer. -/
def memData (pos : ℕ) : Option (List (BitVec 32)) :=
  if _h : pos < gp.dataLength then do
    let a ← byte? gp pos
    let b ← (if 1 < gp.dataLength then byte? gp (pos + 1) else some 0)
    let c ← (if 2 < gp.dataLength then byte? gp (pos + 2) else some 0)
    let d ← (if 3 < gp.dataLength then byte? gp (pos + 3) else some 0)
    return word32 a b c d :: (← memData (pos + min gp.dataLength 4))
  else some []
termination_by gp.dataLength - pos

/-- `gen4DWhdr`: any upper bit of the address is set. -/
def gen4DWhdr : Bool := decide (gp.address >>> 32 ≠ 0)

/-- The `fmt` of a memory request. -/
def memFmt : BitVec 32 :=
  if gen4DWhdr gp = true then if gp.isWrite = true then fmt4DWWithData else fmt4DWNoData
  else if gp.isWrite = true then fmt3DWWithData else fmt3DWNoData

/-- `firstDWBE`. -/
def firstDWBE (dlen : ℕ) : Option (BitVec 32) :=
  if 1 ≤ dlen then if gp.byteEnable = [] then some 0xf else beBits gp.enabled 0 0 4 else some 0

/-- `lastDWBE`: the bits set are those of the bytes, not of the byte enables of the last DW. -/
def lastDWBE (dlen : ℕ) : Option (BitVec 32) :=
  if 1 < dlen then if gp.byteEnable = [] then some 0xf else beBits gp.enabled 0 ((dlen - 1) * 4) 4 else some 0

/-- The last DW of a memory request's header. -/
def memAddrDW : List (BitField × BitVec 32) := [(TLPMem.addr312, TLPMem.addr312.get (gp.address.setWidth 32)), (TLPMem.ph, 0)]

/-- `TLP_Mem(gp)`. -/
def tlpMem : Option (List (BitVec 32)) := do
  let dlen := dwLen gp.dataLength
  let dw0 ← word (TLPHdr.dw0 (memFmt gp) typeMRdWr (lengthField dlen))
  let first ← firstDWBE gp dlen
  let last ← lastDWBE gp dlen
  let dw1 ← word (reqDW1 g last first)
  let low ← word (memAddrDW gp)
  let addr := if gen4DWhdr gp = true then [(gp.address >>> 32).setWidth 32, low] else [low]
  let data ← (if gp.isWrite = true then memData gp 0 else some [])
  return dw0 :: dw1 :: (addr ++ data)

end Requests

/-! ### Completions -/

/-- `lowerAddr`: how many byte enables come before the first that is set. -/
def lowerAddr (be : List Byte) : ℕ := (be.takeWhile (· ≠ byteEnabled)).length

/-- The data of a completion. -/
def cplData (gp : GenericPayload) : List (BitVec 32) :=
  (List.range (dwLen gp.dataLength)).map fun j =>
    let d (i : ℕ) : Byte := if 4 * j + i < gp.dataLength then gp.data (4 * j + i) else 0
    word32 (d 0) (d 1) (d 2) (d 3)

/-- `TLP_Cpl(gp)`. -/
def tlpCpl (gp : GenericPayload) (g : Genattr) : Option (List (BitVec 32)) := do
  let fmt := if gp.isRead = true then fmt3DWWithData else fmt3DWNoData
  let dlen := dwLen gp.dataLength
  let dw0 ← word (TLPHdr.dw0 fmt typeCpl (lengthField dlen))
  let status := if gp.response = .ok then cplSC else cplUR
  let dw1 ← word [(TLPCpl.completerID, 0), (TLPCpl.cplStatus, status), (TLPCpl.bcm, 0),
    (TLPCpl.byteCount, if gp.dataLength = sz4K then 0 else BitVec.ofNat 32 gp.dataLength)]
  let dw2 ← word [(TLPCpl.requestorID, g.masterId.setWidth 32), (TLPCpl.tag, g.transactionId),
    (TLPCpl.lowerAddress, BitVec.ofNat 32 (lowerAddr gp.byteEnable))]
  return dw0 :: dw1 :: dw2 :: cplData gp

/-! ### Headers -/

section Headers

variable (hdr : List (BitVec 32))

/-- `m_hdr[idx]`. -/
def dw (idx : ℕ) : BitVec 32 := hdr.getD idx 0

def getFmt : BitVec 32 := TLPHdr.fmt.get (dw hdr 0)
def getType : BitVec 32 := TLPHdr.type.get (dw hdr 0)

/-- `get_length`, where 0 is `MAX_DW_LEN`. -/
def getDWLen : ℕ := if TLPHdr.length.get (dw hdr 0) = 0 then maxDWLen else (TLPHdr.length.get (dw hdr 0)).toNat

/-- `ExpectsData`. -/
def expectsData : Bool :=
  (decide (getType hdr = typeCfgRdWrType0) || decide (getType hdr = typeMRdWr)) && decide (TLPHdr.fmtDataBit.get (dw hdr 0) = 0)

/-- `GetTxID`, where `idx` is the DW of the requester's ID and the tag. -/
def txID (idx : ℕ) : BitVec 32 :=
  TLPReq.requestorID.get (dw hdr idx) <<< 16 ||| TLPHdr.t9.get (dw hdr 0) <<< 9 ||| TLPHdr.t8.get (dw hdr 0) <<< 8 |||
    TLPReq.tag.get (dw hdr idx)

/-- `GetTxID` of a request. -/
def reqTxID : BitVec 32 := txID hdr 1

/-- `GetTxID` of a completion. -/
def cplTxID : BitVec 32 := txID hdr 2

/-- `IsCplD`. -/
def isCplD : Bool := decide (getFmt hdr = fmt3DWWithData)

/-- `GetTLPData(DW_pos)`. -/
def getTLPData (pos : ℕ) : Option (BitVec 32) := hdr[(if getFmt hdr = fmt3DWWithData then 3 else 4) + pos]?

/-- `get_genattr`. -/
def getGenattr : Genattr := ⟨(TLPReq.requestorID.get (dw hdr 1)).setWidth 64, TLPReq.tag.get (dw hdr 1)⟩

/-- `GetAddress`. -/
def getAddress : Addr :=
  if getFmt hdr = fmt4DWWithData ∨ getFmt hdr = fmt4DWNoData then
    (dw hdr 2).setWidth 64 <<< 32 ||| (TLPMem.addr312.get (dw hdr 3) <<< 2).setWidth 64
  else (TLPMem.addr312.get (dw hdr 2) <<< 2).setWidth 64

/-- The register a configuration request names. -/
def cfgAddress : Addr :=
  (TLPConf.busNumber.get (dw hdr 2) <<< 20 ||| TLPConf.deviceNumber.get (dw hdr 2) <<< 15 |||
    TLPConf.funcNumber.get (dw hdr 2) <<< 12 ||| TLPConf.extRegNum.get (dw hdr 2) <<< 8 |||
    TLPConf.regNum.get (dw hdr 2) <<< 2).setWidth 64

/-- `IsMemRd`. -/
def isMemRd : Bool := decide (getFmt hdr = fmt4DWNoData) || decide (getFmt hdr = fmt3DWNoData)

end Headers

/-! ### Received TLPs -/

/-- A received `TLP_Mem`: the header, `m_tlp_dw_len` and `m_tlp_data`. -/
structure TLPMem where
  hdr : List (BitVec 32)
  dwLen : ℕ
  data : ℕ → Byte

/-- The first `n` DWs of the bytes. -/
def readDWs (m : List Byte) (n : ℕ) : Option (List (BitVec 32)) := (List.range n).mapM fun i => readWord m (4 * i)

/-- `TLP_Mem(hdr, b_len)`. -/
def TLPMem.parse (m : List Byte) : Option TLPMem := do
  let hdr ← readDWs m 3
  let hdr ← (if getFmt hdr = fmt4DWNoData ∨ getFmt hdr = fmt4DWWithData then readDWs m 4 else some hdr)
  let dwLen := getDWLen hdr
  if getFmt hdr = fmt4DWWithData ∨ getFmt hdr = fmt3DWWithData then
    if 4 * hdr.length + dwLen * 4 ≤ m.length then some ⟨hdr, dwLen, fun i => m.getD (4 * hdr.length + i) 0⟩ else none
  else some ⟨hdr, dwLen, fun _ => 0⟩

/-- `TLP_Cpl(hdr, len)`. Of the data only the first DW is taken. -/
def TLPCpl.parse (m : List Byte) : Option (List (BitVec 32)) := do
  let hdr ← readDWs m 3
  if isCplD hdr = true then readDWs m 4 else some hdr

/-! ### The bridge -/

/-- A request that waits for its completion: `m_hdr`, `m_gp` and `m_done`. -/
structure Request where
  hdr : List (BitVec 32)
  gp : GenericPayload
  done : Bool

/-- The socket a payload comes in at. -/
inductive Socket where
  | cfg | mem
  deriving DecidableEq

/-- `transmit`: the TLP of a payload. A memory write is posted. -/
def request (s : Socket) (gp : GenericPayload) (g : Genattr) : Option Request :=
  match s with
  | .cfg => (tlpConf gp g).map fun hdr => ⟨hdr, gp, false⟩
  | .mem => (tlpMem gp g).map fun hdr =>
    if gp.isWrite = true then ⟨hdr, { gp with response := .ok }, true⟩ else ⟨hdr, gp, false⟩

/-- The bytes on the link. -/
def Request.wire (r : Request) : List Byte := bytesOf r.hdr

/-- The buffer after the words `v` of the loop of `CopyData`, each shifted by the address's offset in its DW. -/
def copyInto (gp : GenericPayload) (vs : List (BitVec 32)) : GenericPayload :=
  let offset := gp.address.toNat % 4
  { gp with data := fun i => if i < gp.dataLength then (wordBytes (vs.getD (i / 4) 0 <<< (offset * 8))).getD (i % 4) 0 else gp.data i }

/-- `CopyData`. -/
def copyData (gp : GenericPayload) (cpl : List (BitVec 32)) : Option GenericPayload :=
  ((List.range (dwLen gp.dataLength)).mapM fun pos => if pos < getDWLen cpl then getTLPData cpl pos else some 0).map (copyInto gp)

/-- What `b_transport` does with a completion and the request it is for. -/
def complete (r : Request) (cpl : List (BitVec 32)) : Option Request := do
  if expectsData r.hdr = isCplD cpl then
    let gp ← (if expectsData r.hdr = true ∧ isCplD cpl = true then copyData r.gp cpl else some r.gp)
    return { r with gp := { gp with response := .ok }, done := true }
  else return { r with gp := { r.gp with response := .error }, done := true }

/-- What `b_transport` of the TLP side leaves: the waiting requests, or a request for `dma_thread`. -/
inductive Received where
  | cpl (requests : List Request)
  | mem (tlp : TLPMem)

/-- The type `b_transport` reads in the first byte. -/
def wireType (m : List Byte) : BitVec 32 := BitField.get ⟨0, 5⟩ ((m.getD 0 0).setWidth 32)

/-- `b_transport` of the TLP side. `none` also stands for a TLP it reports as unexpected. -/
def bTransport (tlps : List Request) (m : List Byte) : Option Received :=
  if wireType m = typeCpl then do
    let cpl ← TLPCpl.parse m
    let i ← tlps.findIdx? fun r => reqTxID r.hdr = cplTxID cpl
    return .cpl (tlps.set i (← complete (← tlps[i]?) cpl))
  else if wireType m = typeMRdWr then (TLPMem.parse m).map .mem
  else none

namespace TLPMem

variable (t : TLPMem)

/-- The payload of `ProcessWriteDMA`. -/
def processWriteDMA : GenericPayload where
  command := .write
  address := getAddress t.hdr
  data := t.data
  dataLength := t.dwLen * 4
  streamingWidth := t.dwLen * 4

/-- The payload of `ProcessReadDMA`. -/
def processReadDMA : GenericPayload where
  command := .read
  address := getAddress t.hdr
  dataLength := t.dwLen * 4
  streamingWidth := t.dwLen * 4

/-- `dma_thread`: the payload on `dma_init_socket`. -/
def dma : GenericPayload := if isMemRd t.hdr = true then t.processReadDMA else t.processWriteDMA

end TLPMem

end LibSystemCTLM.Pcie
