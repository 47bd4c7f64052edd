import LibSystemCTLM.Foundation.Runs
import LibSystemCTLM.Chi.CheckerFlit
import Mathlib.Logic.Function.Basic

/-!
# The checker of request retries

A completer may refuse a request with a RetryAck and grant a credit for it later (PCrdGrant), with which the
request is issued once more, without AllowRetry, or which is returned (PCrdReturn). The checker tracks the
credits of each completer and type, and keeps the requests that were refused (`checker_request_retry` in
`checker-chi.h`).

## The model

`Checker` is the checker's own state, with a step for each flit it samples. The ledger is what there is to be
tracked: the requests that were not answered, the credits that were granted, used and returned, the requests
that were refused and not issued again, and how many errors are due. A flit does not say which refused request
it issues again, or gives up with a credit that is returned; the step does, by its place in the ledger.

## Honest scope

A RetryAck for no request, after which a null pointer is on a list, is not a step. Completers have different
node IDs, by which they are found again to be changed.
-/

namespace LibSystemCTLM.Chi.Retry

/-! ### Flits -/

/-- The opcodes of requests and responses that matter here. -/
def pCrdReturn : BitVec 8 := 0x05

def prefetchTgt : BitVec 8 := 0x3a

def retryAck : BitVec 8 := 0x3

def pCrdGrant : BitVec 8 := 0x7

/-- `IsReqLCrdReturn`. -/
def isReqLCrdReturn (req : ReqFlit) : Bool := req.opcode == 0 && req.txnID == 0

/-- `PCrdType`, which has four bits. -/
def reqType (req : ReqFlit) : BitVec 4 := req.pCrdType.setWidth 4

def rspType (rsp : RspFlit) : BitVec 4 := rsp.pCrdType.setWidth 4

/-- `Compare`. -/
def compare (req0 req1 : ReqFlit) : Bool :=
  req0.srcID == req1.srcID && req0.returnNID_StashNID == req1.returnNID_StashNID && req0.stashNIDValid_Endian == req1.stashNIDValid_Endian &&
    req0.opcode == req1.opcode && req0.size == req1.size && req0.address == req1.address && req0.nonSecure == req1.nonSecure &&
    req0.likelyShared == req1.likelyShared && req0.order == req1.order && req0.allocate == req1.allocate && req0.cacheable == req1.cacheable &&
    req0.deviceMemory == req1.deviceMemory && req0.earlyWrAck == req1.earlyWrAck && req0.snpAttr == req1.snpAttr && req0.lpid == req1.lpid &&
    req0.excl_SnoopMe == req1.excl_SnoopMe && req0.expCompAck == req1.expCompAck

/-! ### The checker -/

/-- The credits of one type, and the requests that were refused with it. -/
structure PCredits where
  numPCredits : BitVec 32 := 0
  reqs : List ReqFlit := []

namespace PCredits

variable (p : PCredits)

def addRequest (req : ReqFlit) : PCredits := { p with reqs := p.reqs ++ [req] }

def incNumPCredits : PCredits := { p with numPCredits := p.numPCredits + 1 }

/-- With the last credit all requests are dropped. -/
def decNumPCredits : PCredits := ⟨p.numPCredits - 1, if p.numPCredits - 1 = 0 then [] else p.reqs⟩

def check : Bool := decide (p.numPCredits.toNat ≤ p.reqs.length)

def containsRetriedRequest (newReq : ReqFlit) : Bool := p.reqs.any fun req => compare req newReq

end PCredits

structure Completer where
  nodeID : BitVec 16
  credits : BitVec 4 → PCredits := fun _ => {}

/-- `NUM_PCREDITS_TYPES` of them. -/
def types : List (BitVec 4) := (List.range 16).map (BitVec.ofNat 4)

namespace Completer

variable (c : Completer)

def containsRetriedRequest (req : ReqFlit) : Bool := types.any fun t => (c.credits t).containsRetriedRequest req

/-- What `ReturnPCredit` returns; a credit is taken off then. -/
def returnPCredit (req : ReqFlit) : Bool :=
  req.opcode == pCrdReturn && decide (0 < (c.credits (reqType req)).numPCredits) || (c.credits (reqType req)).containsRetriedRequest req

def check : Bool := types.all fun t => (c.credits t).check

/-- A change of the credits of one type. -/
def change (t : BitVec 4) (f : PCredits → PCredits) : Completer := { c with credits := Function.update c.credits t (f (c.credits t)) }

end Completer

structure Checker where
  txn : BitVec 8 → Option ReqFlit := fun _ => none
  completers : List Completer := []
  errors : ℕ := 0

namespace Checker

variable (s : Checker)

/-- `LookupCompleter` of a request. -/
def lookupCompleter (req : ReqFlit) : Option Completer :=
  s.completers.find? fun c => req.opcode == pCrdReturn && c.nodeID == req.tgtID || c.containsRetriedRequest req

/-- `LookupCompleter` of a response, by its source. -/
def lookupNode (node : BitVec 16) : Option Completer := s.completers.find? fun c => c.nodeID == node

/-- A completer is created if there is none. -/
def ensure (node : BitVec 16) : Checker :=
  match s.lookupNode node with
  | some _ => s
  | none => { s with completers := s.completers ++ [{ nodeID := node }] }

/-- A change of the credits of a completer. -/
def change (node : BitVec 16) (t : BitVec 4) (f : PCredits → PCredits) : Checker :=
  { s with completers := s.completers.map fun c => if c.nodeID = node then c.change t f else c }

def setTxn (id : BitVec 8) (req : Option ReqFlit) : Checker := { s with txn := Function.update s.txn id req }

def reportError : Checker := { s with errors := s.errors + 1 }

/-- `NumOutstandingRequests() == 0`. -/
def noneOutstanding : Bool := (List.range 256).all fun i => (s.txn (BitVec.ofNat 8 i)).isNone

/-- `CheckCompleters`, when no request is outstanding. -/
def checkCompleters : Checker := if s.noneOutstanding = true ∧ (s.completers.all Completer.check) = false then s.reportError else s

/-- `SampleRequest`. -/
def sampleRequest (req : ReqFlit) : Checker :=
  if isReqLCrdReturn req = true then s
  else if req.allowRetry = true then s.setTxn req.txnID (some req)
  else
    match s.lookupCompleter req with
    | none => s.reportError
    | some c => if c.returnPCredit req = true then s.change c.nodeID (reqType req) PCredits.decNumPCredits else s.reportError

/-- `HandleRxRsp`. -/
def handleRxRsp (rsp : RspFlit) : Option Checker :=
  if rsp.opcode = retryAck then
    (s.txn rsp.txnID).map fun req => (((s.ensure rsp.srcID).setTxn rsp.txnID none).change rsp.srcID (rspType rsp) (·.addRequest req)).checkCompleters
  else if rsp.opcode = pCrdGrant then some ((s.ensure rsp.srcID).change rsp.srcID (rspType rsp) PCredits.incNumPCredits).checkCompleters
  else some (s.setTxn rsp.txnID none).checkCompleters

/-- `HandleRxDat`. -/
def handleRxDat (txnID : BitVec 8) : Checker := (s.setTxn txnID none).checkCompleters

end Checker

/-! ### The ledger -/

/-- A request that was refused by a completer, with a type of credit. -/
structure Retried where
  node : BitVec 16
  type : BitVec 4
  req : ReqFlit

structure Ledger where
  outstanding : BitVec 8 → Option ReqFlit := fun _ => none
  grants : BitVec 16 → BitVec 4 → ℕ := fun _ _ => 0
  uses : BitVec 16 → BitVec 4 → ℕ := fun _ _ => 0
  returns : BitVec 16 → BitVec 4 → ℕ := fun _ _ => 0
  retried : List Retried := []
  due : ℕ := 0

/-- One more. -/
def incr (f : BitVec 16 → BitVec 4 → ℕ) (node : BitVec 16) (t : BitVec 4) : BitVec 16 → BitVec 4 → ℕ := fun node' t' =>
  if node' = node ∧ t' = t then f node' t' + 1 else f node' t'

namespace Ledger

variable (l : Ledger)

/-- The credits there are. -/
def credits (node : BitVec 16) (t : BitVec 4) : ℕ := l.grants node t - l.uses node t - l.returns node t

/-- The requests that wait for a credit of a completer and type. -/
def waiting (node : BitVec 16) (t : BitVec 4) : List ReqFlit :=
  (l.retried.filter fun e => decide (e.node = node) && decide (e.type = t)).map (·.req)

/-- A request, with the place of the refused one that it issues again, or that a returned credit was for. -/
def request (req : ReqFlit) (k : Option ℕ) : Ledger :=
  if isReqLCrdReturn req = true then l
  else if req.allowRetry = true then { l with outstanding := Function.update l.outstanding req.txnID (some req) }
  else if req.opcode = prefetchTgt then l
  else if req.opcode = pCrdReturn then
    if 0 < l.credits req.tgtID (reqType req) then
      { l with returns := incr l.returns req.tgtID (reqType req), retried := (k.map l.retried.eraseIdx).getD l.retried }
    else { l with due := l.due + 1 }
  else
    match k.bind fun k => l.retried[k]? with
    | some e => { l with uses := incr l.uses e.node e.type, retried := (k.map l.retried.eraseIdx).getD l.retried }
    | none => { l with due := l.due + 1 }

/-- A response. -/
def response (rsp : RspFlit) : Ledger :=
  if rsp.opcode = 0 then l
  else if rsp.opcode = retryAck then
    { l with
      outstanding := Function.update l.outstanding rsp.txnID none
      retried := l.retried ++ ((l.outstanding rsp.txnID).map fun req => ⟨rsp.srcID, rspType rsp, req⟩).toList }
  else if rsp.opcode = pCrdGrant then { l with grants := incr l.grants rsp.srcID (rspType rsp) }
  else { l with outstanding := Function.update l.outstanding rsp.txnID none }

/-- A data flit, which may return a link credit. -/
def data (lCrdReturn : Bool) (txnID : BitVec 8) : Ledger :=
  if lCrdReturn = true then l else { l with outstanding := Function.update l.outstanding txnID none }

end Ledger

/-! ### Steps -/

structure State where
  checker : Checker := {}
  ledger : Ledger := {}

inductive Act where
  | request (req : ReqFlit) (k : Option ℕ)
  | response (rsp : RspFlit)
  | data (lCrdReturn : Bool) (txnID : BitVec 8)

def step (s : State) : Act → Option State
  | .request req k => some ⟨s.checker.sampleRequest req, s.ledger.request req k⟩
  | .response rsp => (s.checker.handleRxRsp rsp).map fun c => ⟨c, s.ledger.response rsp⟩
  | .data lCrdReturn txnID => some ⟨s.checker.handleRxDat txnID, s.ledger.data lCrdReturn txnID⟩

end LibSystemCTLM.Chi.Retry
