import LibSystemCTLM.Foundation.Runs
import LibSystemCTLM.Foundation.Bursts
import LibSystemCTLM.Foundation.Pairing

/-!
# The checker of AXI write bursts

`check_wr_tx` in `checker-axi.h` keeps the addresses and the data of writes that are accepted, pairs them when
both are there, and checks the strobes and `wlast` of each beat against its transaction.

## The model

A step is a clock edge, with the transfers that are accepted at it. The ledger keeps all addresses, numbered in
the order in which they were accepted, and all beats. The checker's `charged` is no variable of the source: it
lists which beat was checked against which transaction.

## Honest scope

A transfer is not wider than the bus. The bus has up to 128 bytes, and strobes are read for its bytes alone. A
reset, which clears the lists, is not a step. `GetNext` is called for AXI4 only, where it takes the first
transaction; its check of the order of the data (`PreviousHaveData`) is for AXI3, and is never made. The fields of
a transaction that only a message shows are left out.
-/

namespace LibSystemCTLM.Axi.WrTx

open Foundation

/-! ### Transactions -/

/-- `AXIVersion`. -/
inductive Version where
  | axi4 | axi3
  deriving DecidableEq

/-- `__AXIPCConfig`, and the width of the bus. -/
structure Config where
  busBits : ℕ
  busBits_le : busBits ≤ 7
  version : Version
  enWstrbCheck : Bool
  allowWstrbGaps : Bool
  enWrBurstsCheck : Bool
  enRespCheck : Bool
  maxDepth : ℕ

variable (cfg : Config)

/-- `data_bus_bytes`. -/
def Config.dataBusBytes : ℕ := 2 ^ cfg.busBits

/-- `max_wdata_depth`: `AXI3_MAX_BURSTLENGTH` or `AXI4_MAX_BURSTLENGTH` for each transaction. -/
def Config.maxWdataDepth : ℕ :=
  match cfg.version with
  | .axi3 => cfg.maxDepth * 16
  | .axi4 => cfg.maxDepth * 256

/-- The write address channel, with the number of the transfer. -/
structure Address where
  number : ℕ
  awid : BitVec 32
  awaddr : BitVec 64
  awlen : ℕ
  awsize : ℕ
  awburst : BurstType
  awlock : BitVec 8
  awsize_le : awsize ≤ cfg.busBits
  deriving DecidableEq

/-- `Transaction`. -/
structure Transaction where
  address : Address cfg
  beat : ℕ := 1
  deriving DecidableEq

/-- `WData`, with the transaction of a burst that is over. -/
structure WData where
  wid : BitVec 32
  wstrb : ℕ → Bool
  wlast : Bool
  wt : Option (Transaction cfg) := none

/-- `align`. -/
def align (addr alignTo : ℕ) : ℕ := addr / alignTo * alignTo

variable {cfg}

namespace Address

variable (a : Address cfg)

/-- `m_numberBytes`. -/
def numberBytes : ℕ := 2 ^ a.awsize

/-- `m_numBeats`. -/
def numBeats : ℕ := a.awlen + 1

end Address

namespace Transaction

variable (t : Transaction cfg)

def incBeat : Transaction cfg := { t with beat := t.beat + 1 }

def done : Bool := decide (t.address.numBeats < t.beat)

/-- `lower_byte_lane` and `upper_byte_lane`. -/
def lanes : ℕ × ℕ :=
  let awaddr := t.address.awaddr.toNat
  let alignedAddress := align awaddr t.address.numberBytes
  if t.beat = 1 then
    (awaddr - align awaddr cfg.dataBusBytes, alignedAddress + (t.address.numberBytes - 1) - align awaddr cfg.dataBusBytes)
  else
    let addr := if t.address.awburst = .fixed then alignedAddress else (alignedAddress + (t.beat - 1) * t.address.numberBytes) % 2 ^ 64
    (addr - align addr cfg.dataBusBytes, addr - align addr cfg.dataBusBytes + (t.address.numberBytes - 1))

/-- The first lane from `i` on, of at most `n`, that has no strobe. -/
def skipOnes (wstrb : ℕ → Bool) : ℕ → ℕ → ℕ
  | i, 0 => i
  | i, n + 1 => if wstrb i = true then skipOnes wstrb (i + 1) n else i

/-- No lane from `i` on has a strobe. -/
def zerosFrom (bus : ℕ) (wstrb : ℕ → Bool) (i : ℕ) : Bool := (List.range' i (bus - i)).all fun l => !wstrb l

/-- `CheckWstrb`. -/
def checkWstrb (wstrb : ℕ → Bool) (allowGaps : Bool) : Bool :=
  let (lower, upper) := t.lanes
  (List.range lower).all (fun l => !wstrb l) &&
    if allowGaps = true then zerosFrom cfg.dataBusBytes wstrb (upper + 1)
    else if t.beat = t.address.numBeats then wstrb lower && zerosFrom cfg.dataBusBytes wstrb (skipOnes wstrb (lower + 1) (upper - lower))
    else (List.range' lower (upper + 1 - lower)).all wstrb && zerosFrom cfg.dataBusBytes wstrb (upper + 1)

end Transaction

/-! ### The checker -/

/-- The errors that are reported, some for a transaction. -/
inductive Report (cfg : Config) where
  /-- "wstrb not following expected format" -/
  | wstrb (a : Address cfg)
  /-- "Error on data burst length or wlast identified on write data channel" -/
  | burst (a : Address cfg)
  /-- "Error response identifed, bresp: .." -/
  | resp (a : Option (Address cfg))
  /-- "Unexpected transaction id on write response channel" -/
  | unexpectedId
  /-- "Maximum outstanding transactions reached" -/
  | maxTransactions
  /-- "Maximum outstanding (wdata) transactions reached" -/
  | maxWdata
  deriving DecidableEq

variable (cfg) in
structure Checker where
  wtList : List (Transaction cfg) := []
  wdataList : List (WData cfg) := []
  respList : List (WData cfg) := []
  charged : List (Address cfg × WData cfg) := []
  reports : List (Report cfg) := []

/-- The errors of a beat. -/
def beatReports (wt : Transaction cfg) (wd : WData cfg) : List (Report cfg) :=
  (if cfg.enWstrbCheck = true ∧ wt.checkWstrb wd.wstrb cfg.allowWstrbGaps = false then [.wstrb wt.address] else []) ++
    if wd.wlast = true ∧ cfg.enWrBurstsCheck = true ∧ wt.incBeat.done = false then [.burst wt.address] else []

namespace Checker

variable (s : Checker cfg)

def report (r : Report cfg) : Checker cfg := { s with reports := s.reports ++ [r] }

/-- A beat is checked, and with the last one the transaction waits for its response. -/
def charge (wt : Transaction cfg) (wd : WData cfg) : Checker cfg :=
  let s := { s with charged := s.charged ++ [(wt.address, wd)], reports := s.reports ++ beatReports wt wd }
  if wd.wlast = true then
    if s.respList.length < cfg.maxDepth then { s with respList := s.respList ++ [{ wd with wt := some wt.incBeat }] } else s.report .maxTransactions
  else s

/-- `process_aw_w_axi4`. -/
def processAxi4 : Checker cfg → List (Transaction cfg) → List (WData cfg) → Checker cfg
  | s, [], wds => { s with wtList := [], wdataList := wds }
  | s, wts, [] => { s with wtList := wts, wdataList := [] }
  | s, wt :: wts, wd :: wds => processAxi4 (s.charge wt wd) (if wd.wlast = true then wts else wt.incBeat :: wts) wds

/-- The inner loop of `process_aw_w_axi3`, over the beats with the transaction's ID. What it leaves of the transaction
and of the data. -/
def drain : Checker cfg → Transaction cfg → List (WData cfg) → Checker cfg × Option (Transaction cfg) × List (WData cfg)
  | s, wt, [] => (s, some wt, [])
  | s, wt, wd :: wds =>
    if wd.wid = wt.address.awid then
      if wd.wlast = true then (s.charge wt wd, none, wds) else drain (s.charge wt wd) wt.incBeat wds
    else
      let (s, rest, wds) := drain s wt wds
      (s, rest, wd :: wds)

/-- `process_aw_w_axi3`. -/
def processAxi3 : Checker cfg → List (Transaction cfg) → List (WData cfg) → Checker cfg
  | s, [], wds => { s with wtList := [], wdataList := wds }
  | s, wt :: wts, wds =>
    let (s, rest, wds) := s.drain wt wds
    let s := processAxi3 s wts wds
    { s with wtList := rest.toList ++ s.wtList }

def process : Checker cfg :=
  match cfg.version with
  | .axi4 => s.processAxi4 s.wtList s.wdataList
  | .axi3 => s.processAxi3 s.wtList s.wdataList

/-- `GetFirst` of the responses that are waited for. -/
def isResponse (id : BitVec 32) (wd : WData cfg) : Bool :=
  match cfg.version with
  | .axi3 => wd.wid == id
  | .axi4 => wd.wt.any fun t => t.address.awid == id

/-- `check_axi_resp`: `AXI_OKAY`, or `AXI_EXOKAY` of an exclusive access. -/
def checkAxiResp (tr : Option (Transaction cfg)) (resp : BitVec 2) : Bool := resp == 0 || (tr.any fun t => t.address.awlock == 1) && resp == 1

/-- A write address is accepted. -/
def sampleAw (a : Address cfg) : Checker cfg :=
  if s.wtList.length < cfg.maxDepth then { s with wtList := s.wtList ++ [{ address := a }] } else s.report .maxTransactions

/-- A beat of data is accepted. -/
def sampleW (wd : WData cfg) : Checker cfg :=
  if s.wdataList.length < cfg.maxWdataDepth then { s with wdataList := s.wdataList ++ [wd] } else s.report .maxWdata

/-- A response is accepted. -/
def sampleB (bid : BitVec 32) (bresp : BitVec 2) : Checker cfg :=
  match s.respList.find? (isResponse bid) with
  | some wd =>
    let s := if cfg.enRespCheck = true ∧ checkAxiResp wd.wt bresp = false then s.report (.resp (wd.wt.map (·.address))) else s
    { s with respList := s.respList.eraseP (isResponse bid) }
  | none => s.report .unexpectedId

end Checker

/-! ### Steps -/

variable (cfg) in
/-- What was accepted. -/
structure Ledger where
  addrs : List (Address cfg) := []
  beats : List (WData cfg) := []

variable (cfg) in
structure State where
  checker : Checker cfg := {}
  ledger : Ledger cfg := {}

variable (cfg) in
/-- The transfers that are accepted at a clock edge. -/
structure Edge where
  aw : Option (Address cfg) := none
  w : Option (WData cfg) := none
  b : Option (BitVec 32 × BitVec 2) := none

def Ledger.accept (l : Ledger cfg) (e : Edge cfg) : Ledger cfg := ⟨l.addrs ++ e.aw.toList, l.beats ++ e.w.toList⟩

/-- `wr_check`. -/
def Checker.wrCheck (s : Checker cfg) (e : Edge cfg) : Checker cfg :=
  let s := e.aw.elim s s.sampleAw
  let s := (e.w.elim s s.sampleW).process
  e.b.elim s fun b => s.sampleB b.1 b.2

/-- An edge, at which an address has the next number, and a beat no transaction yet. -/
def step (s : State cfg) (e : Edge cfg) : Option (State cfg) :=
  if (e.aw.all fun a => a.number == s.ledger.addrs.length) = true ∧ (e.w.all fun wd => wd.wt.isNone) = true then
    some ⟨s.checker.wrCheck e, s.ledger.accept e⟩
  else none

end LibSystemCTLM.Axi.WrTx
