import LibSystemCTLM.Ccix.Opcodes
import LibSystemCTLM.Foundation.Runs
import Mathlib.Data.List.Basic
import Mathlib.Logic.Function.Basic

/-!
# Snooping at the home

The point of coherence of an `iconnect_chi` with CCIX ports (`iconnect-chi.h`, `ccixport.h`). A request
that needs it is snooped at the RN-Fs and at the CCIX ports whose filters have its line. A port sends a
snoop to its remote agents, all under one transaction ID. The request goes on when the trackers of all
IDs are done.

## The model

`Home` is the filters, the free IDs, `m_ongoingTxn`, the request that is processed, the thread that
sends its snoops, and the snoops that have not been answered. The thread blocks in `CCIXLink::Transmit`
after each snoop to a remote agent, and responses may come before it goes on (`resume`). A request
that was snooped is the transaction processor's (`continued`): it takes IDs and gives them back, may
update the requester's filter, and is done at some time.

## Honest scope

Requests whose home is another chip, and what they do to the IDs, are `take` and `giveBack`. Snoops are
not forwarded, as `m_DCT_enabled` says when there are CCIX ports. A data response is the last of its beats.
What the exclusive monitor says is part of the action.
-/

namespace LibSystemCTLM.Ccix

open Foundation

/-! ### `SnoopFilter` -/

/-- `Address`: a cache line. -/
structure Address where
  addr : BitVec 64
  nonSecure : Bool
  deriving DecidableEq

/-- `Address(req)`. -/
def Address.ofReq (address : BitVec 64) (nonSecure : Bool) : Address := ⟨address &&& ~~~63, nonSecure⟩

/-- `m_allocated`. -/
abbrev SnoopFilter := List Address

namespace SnoopFilter

variable (a : Address) (f : SnoopFilter)

/-- `ContainsAllocated`. -/
def containsAllocated : Bool := decide (a ∈ f)

/-- `AllocateCacheLine`. -/
def allocateCacheLine : SnoopFilter := if a ∈ f then f else f ++ [a]

/-- `EvictCacheLine`. -/
def evictCacheLine : SnoopFilter := if a ∈ f then f.filter fun b => decide (b ≠ a) else f

/-- `INV` and `I_PD`. -/
def isInvalid (resp : BitVec 8) : Bool := decide (resp = 0x0) || decide (resp = 0x4)

/-- `Update`, called from the point of coherence after a snoop. -/
def updateResp (resp : BitVec 8) : SnoopFilter := if isInvalid resp = true then evictCacheLine a f else f

/-- `Update`, called from the transaction processor. -/
def updateReq (opcode : BitVec 8) : SnoopFilter :=
  if opcode ∈ [Chi.readClean, Chi.readNotSharedDirty, Chi.readShared, Chi.readUnique, Chi.cleanUnique, Chi.makeUnique] then
    allocateCacheLine a f
  else if opcode ∈ [Chi.cleanShared, Chi.cleanSharedPersist, Chi.writeCleanFull] then f
  else evictCacheLine a f

end SnoopFilter

/-! ### Requests -/

/-- `Req::DVMOp`. -/
def Chi.dvmOp : BitVec 8 := 0x14

/-- `IsSnoopingReq`. -/
def isSnoopingReq (opcode : BitVec 8) : Bool :=
  decide (opcode ∈ [Chi.readOnce, Chi.readOnceCleanInvalid, Chi.readOnceMakeInvalid, Chi.readClean, Chi.readNotSharedDirty,
    Chi.readShared, Chi.readUnique, Chi.cleanUnique, Chi.makeUnique, Chi.cleanShared, Chi.cleanSharedPersist, Chi.cleanInvalid,
    Chi.makeInvalid, Chi.stashOnceUnique, Chi.stashOnceShared, Chi.writeUniqueFull, Chi.writeUniquePtl, Chi.writeUniqueFullStash,
    Chi.writeUniquePtlStash, Chi.atomicStore, Chi.atomicLoad, Chi.atomicSwap, Chi.atomicCompare, Chi.dvmOp])

/-- `GetCHISnpAttr` of a `CCIXReq`. -/
def getCHISnpAttr (opcode : BitVec 8) : Bool :=
  decide (opcode ∈ [Chi.readOnce, Chi.readOnceCleanInvalid, Chi.readOnceMakeInvalid, Chi.readClean, Chi.readNotSharedDirty,
    Chi.readShared, Chi.readUnique, Chi.cleanUnique, Chi.makeUnique, Chi.evict, Chi.cleanShared, Chi.cleanSharedPersist,
    Chi.cleanInvalid, Chi.makeInvalid, Chi.stashOnceUnique, Chi.stashOnceShared])

/-- A `ReqTxn`. -/
structure ReqTxn where
  srcID : BitVec 16
  address : BitVec 64
  nonSecure : Bool
  opcode : BitVec 8
  snpAttr : Bool
  snoopMe : Bool
  excl : Bool

namespace ReqTxn

variable (r : ReqTxn)

def line : Address := .ofReq r.address r.nonSecure

/-- `GetSnpMe`, a TODO in the source. -/
def getSnpMe (_ : ReqTxn) : Bool := false

/-- A request that came from a CCIX port: `ccix2chi` of what `chi2ccix` made of it, with the `Resp` of its data. -/
def viaCCIX (resp : BitVec 8) : Option ReqTxn := do
  let reqOp ← outgoingOp r.opcode resp r.snoopMe
  let opcode ← toCHI reqOp
  return { r with
    opcode := opcode
    snpAttr := isCCIXAtomicSnpMe reqOp || getCHISnpAttr opcode
    snoopMe := isCCIXAtomicSnpMe reqOp
    excl := false }

/-- `RouteInternal` asks the exclusive monitor. -/
def exclusivePassed (verdict : Bool) : Bool := isAtomic r.opcode || !r.excl || verdict

/-- `RouteInternal` gives the request to the point of coherence. -/
def isSnooped (verdict : Bool) : Bool := r.snpAttr && isSnoopingReq r.opcode && r.exclusivePassed verdict

end ReqTxn

/-! ### Ports -/

/-- `Port_RN_F`. -/
structure PortRNF where
  nodeID : BitVec 16
  snpFilter : SnoopFilter

structure CCIXAgent where
  id : BitVec 16
  snpFilter : SnoopFilter

/-- `m_agents` of a `CCIXPort`. -/
structure PortCCIX where
  agents : List CCIXAgent

namespace PortCCIX

variable (p : PortCCIX) (r : ReqTxn)

/-- `NeedsSnoop`. -/
def needsSnoop : Bool :=
  p.agents.any fun a => (decide (a.id ≠ r.srcID) || r.getSnpMe) && a.snpFilter.containsAllocated r.line

/-- `UpdateSnoopFilter`, of a response as of a request. -/
def updateSnoopFilter (f : SnoopFilter → SnoopFilter) : PortCCIX :=
  ⟨p.agents.map fun a => if a.id = r.srcID then { a with snpFilter := f a.snpFilter } else a⟩

/-- `Contains`. -/
def contains (id : BitVec 16) : Bool := p.agents.any fun a => decide (a.id = id)

end PortCCIX

/-! ### The home -/

/-- `SnpTxnTracker`. -/
structure Tracker where
  txnID : BitVec 8
  resp : BitVec 8 := 0
  done : Bool := false

/-- A snoop that has not been answered: at an RN-F, or at an agent of a CCIX port. -/
structure Snp where
  port : Option ℕ
  id : BitVec 16
  txnID : BitVec 8
  n : ℕ

/-- The request that is processed, the `n`th. `snooped` says whether it is to be snooped as its requester
issued it, `sent` which agents of which ports were sent a snoop. -/
structure Cur where
  n : ℕ
  req : ReqTxn
  snooped : Bool
  trackers : List Tracker := []
  continued : Bool := false
  sent : List (ℕ × BitVec 16) := []

/-- The thread in `Transmit` of a CCIX port: the agents it has seen, and the ports that come after. -/
structure Thread where
  n : ℕ
  line : Address
  port : ℕ
  txnID : BitVec 8
  next : ℕ
  ports : List ℕ

structure Home where
  rnfs : List PortRNF
  ccix : List PortCCIX
  ids : List (BitVec 8)
  held : List (BitVec 8)
  ongoingTxn : BitVec 8 → Option ℕ
  n : ℕ
  cur : Option Cur
  thread : Option Thread
  snps : List Snp

namespace Cur

variable (c : Cur)

/-- `GetSnpTxnTracker` finds a tracker. -/
def tracks (txnID : BitVec 8) : Bool := c.trackers.any fun t => decide (t.txnID = txnID)

/-- `SetSnpTxnDone`: the first tracker of the ID. -/
def setSnpTxnDone (txnID resp : BitVec 8) : Cur :=
  { c with trackers := c.trackers.modify (c.trackers.findIdx fun t => decide (t.txnID = txnID)) fun t => { t with resp := resp, done := true } }

/-- `AllSnpTxnDone`. -/
def allSnpTxnDone : Bool := c.trackers.all Tracker.done

/-- `CheckSnpDone`. -/
def checkSnpDone : Cur := if c.allSnpTxnDone = true then { c with continued := true } else c

end Cur

namespace Home

variable (s : Home)

/-- `GetID` and `WaitForSnpTxn`. -/
def waitForSnpTxn : Option (BitVec 8 × Home) := do
  let c ← s.cur
  match s.ids with
  | [] => none
  | id :: ids =>
    some (id, { s with
      ids := ids
      ongoingTxn := Function.update s.ongoingTxn id (some c.n)
      cur := some { c with trackers := c.trackers ++ [{ txnID := id }] } })

/-- The snoop of an RN-F. -/
def snoopRNF (s : Home) (q : PortRNF) : Option Home := do
  let c ← s.cur
  let (id, s) ← s.waitForSnpTxn
  return { s with snps := s.snps ++ [⟨none, q.nodeID, id, c.n⟩] }

def agents (p : ℕ) : List CCIXAgent := s.ccix[p]?.elim [] PortCCIX.agents

/-- The loop of `Transmit(req, msg)`, as far as the next agent that is sent a snoop. -/
def nextAgent (p next : ℕ) (line : Address) : Option (CCIXAgent × ℕ) :=
  (((s.agents p).zipIdx.drop next).find? fun x => x.1.snpFilter.containsAllocated line).map fun x => (x.1, x.2 + 1)

/-- `CCIXLink::Transmit` of a snoop. -/
def transmit (t : Thread) (a : CCIXAgent) : Home :=
  { s with
    snps := s.snps ++ [⟨some t.port, a.id, t.txnID, t.n⟩]
    cur := s.cur.map fun c => { c with sent := c.sent ++ [(t.port, a.id)] }
    thread := some t }

/-- The loop of `ProcessReq` over the CCIX ports. -/
def snoopPorts (s : Home) (n : ℕ) (line : Address) : List ℕ → Option Home
  | [] => some { s with thread := none }
  | p :: ports => do
    let (id, s) ← s.waitForSnpTxn
    match s.nextAgent p 0 line with
    | some (a, next) => some (s.transmit ⟨n, line, p, id, next, ports⟩ a)
    | none => s.snoopPorts n line ports

/-- The thread goes on. -/
def resume : Option Home := do
  let t ← s.thread
  match s.nextAgent t.port t.next t.line with
  | some (a, next) => some (s.transmit { t with next := next } a)
  | none => s.snoopPorts t.n t.line t.ports

/-- The RN-Fs of `FillPortsToSnoop`. -/
def rnfsToSnoop (r : ReqTxn) : List PortRNF :=
  s.rnfs.filter fun q => (decide (q.nodeID ≠ r.srcID) || r.getSnpMe) && q.snpFilter.containsAllocated r.line

/-- The CCIX ports of `FillPortsToSnoop`. -/
def portsToSnoop (r : ReqTxn) : List ℕ := (List.range s.ccix.length).filter fun p => s.ccix[p]?.any fun q => q.needsSnoop r

/-- The request as it comes to the home. -/
def incoming (r : ReqTxn) : Option (BitVec 8) → Option ReqTxn
  | none => some r
  | some resp => r.viaCCIX resp

/-- `RouteInternal` and `PointOfCoherence::ProcessReq`. -/
def processReq (h : ReqTxn) (snooped verdict : Bool) : Option Home :=
  let c : Cur := { n := s.n, req := h, snooped := snooped }
  let nodes := s.rnfsToSnoop h
  let ports := s.portsToSnoop h
  if h.isSnooped verdict = true ∧ (nodes ≠ [] ∨ ports ≠ []) then do
    let u ← nodes.foldlM snoopRNF { s with n := s.n + 1, cur := some c }
    u.snoopPorts c.n h.line ports
  else some { s with n := s.n + 1, cur := some { c with continued := true } }

/-- The next request. `LookupPortCCIX` has an assertion that every port has an agent. -/
def request (r : ReqTxn) (remote : Option (BitVec 8)) (verdict : Bool) : Option Home :=
  if s.cur.isNone = true ∧ s.thread.isNone = true ∧ (s.ccix.all fun p => !p.agents.isEmpty) = true then do
    let h ← incoming r remote
    s.processReq h (r.snpAttr && isSnoopingReq r.opcode && h.exclusivePassed verdict) verdict
  else none

/-- The filter of the port that is found under an ID. -/
def updateSnoopFilter (id : BitVec 16) (r : ReqTxn) (f : SnoopFilter → SnoopFilter) : Home :=
  match s.rnfs.findIdx? fun q => decide (q.nodeID = id) with
  | some i => { s with rnfs := s.rnfs.modify i fun q => { q with snpFilter := f q.snpFilter } }
  | none =>
    match s.ccix.findIdx? fun p => p.contains id with
    | some i => { s with ccix := s.ccix.modify i fun p => p.updateSnoopFilter r f }
    | none => s

/-- `ProcessResp` and `ProcessDat` of the point of coherence, with the assertion that there is a request. -/
def respond (i : ℕ) (resp : BitVec 8) : Option Home := do
  let w ← s.snps[i]?
  let m ← s.ongoingTxn w.txnID
  let c ← s.cur
  if m = c.n ∧ c.tracks w.txnID = true then
    let s := s.updateSnoopFilter w.id c.req (SnoopFilter.updateResp c.req.line · resp)
    some { s with
      snps := s.snps.eraseIdx i
      ongoingTxn := Function.update s.ongoingTxn w.txnID none
      ids := s.ids ++ [w.txnID]
      cur := some (c.setSnpTxnDone w.txnID resp).checkSnpDone }
  else none

/-- The transaction processor updates the requester's filter. -/
def updateRequester : Option Home := do
  let c ← s.cur
  if c.continued = true then some (s.updateSnoopFilter c.req.srcID c.req (SnoopFilter.updateReq c.req.line · c.req.opcode)) else none

/-- `RequestDone`. -/
def requestDone : Option Home := do
  let c ← s.cur
  if c.continued = true then some { s with cur := none } else none

/-- An ID that is used for something else than a snoop. -/
def take (m : ℕ) : Option Home :=
  match s.ids with
  | [] => none
  | id :: ids => some { s with ids := ids, held := id :: s.held, ongoingTxn := Function.update s.ongoingTxn id (some m) }

def giveBack (id : BitVec 8) : Option Home :=
  if id ∈ s.held then
    some { s with held := s.held.erase id, ids := s.ids ++ [id], ongoingTxn := Function.update s.ongoingTxn id none }
  else none

inductive Act where
  /-- A request as it was issued; a remote one with the `Resp` of its data. -/
  | request (r : ReqTxn) (remote : Option (BitVec 8)) (verdict : Bool)
  | resume
  | respond (i : ℕ) (resp : BitVec 8)
  | updateRequester
  | requestDone
  | take (m : ℕ)
  | giveBack (id : BitVec 8)

def step : Act → Option Home
  | .request r remote verdict => s.request r remote verdict
  | .resume => s.resume
  | .respond i resp => s.respond i resp
  | .updateRequester => s.updateRequester
  | .requestDone => s.requestDone
  | .take m => s.take m
  | .giveBack id => s.giveBack id

/-- The home before the first request. -/
def init (rnfs : List PortRNF) (ccix : List PortCCIX) : Home where
  rnfs := rnfs
  ccix := ccix
  ids := (List.range 256).map (BitVec.ofNat 8)
  held := []
  ongoingTxn := fun _ => none
  n := 0
  cur := none
  thread := none
  snps := []

end Home

end LibSystemCTLM.Ccix
