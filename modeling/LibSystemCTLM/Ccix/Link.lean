import LibSystemCTLM.Ccix.Opcodes
import LibSystemCTLM.Foundation.Runs
import Mathlib.Logic.Function.Basic

/-!
# Two CCIX ports and their credits

`CCIXLink` of two connected ports (`ccixport.h`). A link counts the credits it has to grant
(`m_txCredits`) and those it was granted (`m_rxCredits`). A request takes one of the granted credits,
and one for its data; a snoop takes a snoop credit. The receiver gives them back when the transaction
is done on its side, and the transmit thread sends what there is to grant before anything else.

## The model

A `Sys` is the two ports; a port's `wire` is what its transmit thread has sent and the other port has
not received. Actions are the steps of the threads: a request that passes `WaitForCredits`, a snoop
whose thread may have to wait, the transmit thread, a message that arrives, and what the CHI side does
at the home: an answer to a request, as `TxnProcessor::ProcessReq` and the slave give it, the rest of
the thread that gave it, a `CompAck`, a response to a snoop.

A port sends no credits with another message. What it does with those that come (`UpdateRxCredits` of
a `MsgCredit`) is in the model, and `piggyback` lets what is queued carry some.

## Honest scope

The order in which a port sends its requests, one at a time, is left out, as are the requesting
side's lists: any number of requests may be under way. `CCIXPort` sends no credited misc messages.
The IDs a port takes for the CHI side never run out before the credits do.
-/

namespace LibSystemCTLM.Ccix

open Foundation

/-! ### `LinkCredits` -/

/-- The types of credits. -/
inductive CreditType where
  | req | data | snoop | misc
  deriving DecidableEq

theorem CreditType.forall {P : CreditType → Prop} : (∀ k, P k) ↔ P .req ∧ P .data ∧ P .snoop ∧ P .misc :=
  ⟨fun h => ⟨h _, h _, h _, h _⟩, fun ⟨h1, h2, h3, h4⟩ k => by cases k <;> assumption⟩

instance {P : CreditType → Prop} [DecidablePred P] : Decidable (∀ k, P k) := decidable_of_iff _ CreditType.forall.symm

/-- `LinkCredits`: a counter of each type. -/
abbrev LinkCredits := CreditType → BitVec 32

namespace LinkCredits

/-- `LinkCredits(initVal)`. -/
def ofVal (v : BitVec 32) : LinkCredits := fun _ => v

/-- `IncReq`, `IncData`, `IncSnoop` and `IncMisc`. -/
def inc (c : LinkCredits) (k : CreditType) (v : BitVec 32) : LinkCredits := Function.update c k (c k + v)

/-- `DecReq`, `DecData`, `DecSnoop` and `DecMisc`. -/
def dec (c : LinkCredits) (k : CreditType) (v : BitVec 32) : LinkCredits := Function.update c k (c k - v)

/-- `HasCredits`. -/
def hasCredits (c : LinkCredits) : Bool :=
  decide (0 < c .req) || decide (0 < c .data) || decide (0 < c .snoop) || decide (c .misc ≠ 0)

/-- `Max_Msg_Credits`. -/
def maxMsgCredits : BitVec 32 := 255

/-- `SetupCredits`: the credits in the message. -/
def setupCredits (c : LinkCredits) : LinkCredits := fun k => if maxMsgCredits < c k then maxMsgCredits else c k

/-- What `SetupCredits` leaves. -/
def afterSetup (c : LinkCredits) : LinkCredits := fun k => c k - c.setupCredits k

end LinkCredits

/-- `TxnIDs::NumIDs`. -/
def numIDs : BitVec 32 := 256

/-! ### Messages -/

/-- What the link needs of an `ITxn`. A request has the opcode of its CHI side and its `ReqOp`. -/
inductive Body where
  | req (chiOp reqOp : BitVec 8) (id : BitVec 8)
  | snpReq
  | compData
  | comp
  | snpResp
  | compAck (id : BitVec 8)
  | creditGrant (credits : LinkCredits)

/-- An `ITxn` with its `MsgCredit`. -/
structure Txn where
  body : Body
  msgCredit : BitVec 8 := 0

/-- `MsgCrdt_ReqShift`, `MsgCrdt_DataShift` and `MsgCrdt_SnoopShift`. -/
def msgCrdtShift : CreditType → Option ℕ
  | .req => some 0
  | .data => some 2
  | .snoop => some 2
  | .misc => none

/-- `ExtractReq`, `ExtractData` and `ExtractSnoop`. -/
def extractCredit (msgCredit : BitVec 8) (k : CreditType) : BitVec 32 :=
  match msgCrdtShift k with
  | some shift => (msgCredit >>> shift &&& 0x3).setWidth 32
  | none => 0

/-- Where the six bits of the header have the credits of each type. -/
def msgCreditField (msgCredit : BitVec 8) : CreditType → BitVec 32
  | .req => (msgCredit &&& 0x3).setWidth 32
  | .data => (msgCredit >>> 2 &&& 0x3).setWidth 32
  | .snoop => (msgCredit >>> 4 &&& 0x3).setWidth 32
  | .misc => 0

/-! ### Ports -/

/-- A request of `m_ccix_HN`. `returning` is the argument of a `CCIXReq_Done_HN` that its thread has
still to call. -/
structure HNReq where
  chiOp : BitVec 8
  reqOp : BitVec 8
  id : BitVec 8
  expCompAck : Bool
  returning : Option Bool := none
  deriving DecidableEq

/-- The thread that transmits snoops. -/
inductive Snooper where
  | idle
  /-- In `wait(m_rxCreditsEvent)`. -/
  | waiting
  /-- The event was notified. -/
  | notified
  deriving DecidableEq

/-- What the credits depend on in a `CCIXPort` and its `CCIXLink`. In `rnSnpReq` a snoop that was answered
and whose thread has still to call `CCIXSnpReq_Done_RN` is `true`. -/
structure Port where
  txCredits : LinkCredits := .ofVal numIDs
  rxCredits : LinkCredits := .ofVal 0
  txList : List Txn := []
  wire : List Txn := []
  hn : List HNReq := []
  rnSnpReq : List Bool := []
  snooper : Snooper := .idle

/-- The answers of the CHI side at the home. -/
inductive Answer where
  | compData
  | comp
  /-- `CompDBIDResp` or `DBIDResp`. -/
  | dbidResp
  deriving DecidableEq

/-- `TxnProcessor::ProcessReq` and, for reads and other atomics than stores, the slave. -/
def Answer.IsFor (a : Answer) (chiOp : BitVec 8) : Prop :=
  match a with
  | .compData => isRead chiOp = true ∨ (isAtomic chiOp = true ∧ isAtomicStore chiOp = false)
  | .comp => isDataLess chiOp = true
  | .dbidResp => isWrite chiOp = true ∨ isAtomic chiOp = true

instance (chiOp : BitVec 8) : (a : Answer) → Decidable (a.IsFor chiOp)
  | .compData => inferInstanceAs (Decidable (_ ∨ _))
  | .comp => inferInstanceAs (Decidable (_ = _))
  | .dbidResp => inferInstanceAs (Decidable (_ ∨ _))

namespace Port

variable (p : Port)

/-- A queued transaction. -/
def push (t : Txn) : Port := { p with txList := p.txList ++ [t] }

/-- `WaitForCredits` lets the request through. -/
def PassesWait (chiOp : BitVec 8) : Prop := 0 < p.rxCredits .req ∧ (isWrite chiOp = true → 0 < p.rxCredits .data)

instance (chiOp : BitVec 8) : Decidable (p.PassesWait chiOp) := inferInstanceAs (Decidable (_ ∧ _))

/-- `Transmit(CCIXReq*)`, after the wait. -/
def transmitReq (chiOp reqOp id : BitVec 8) : Port :=
  let rx := p.rxCredits.dec .req 1
  { p with rxCredits := if isWrite chiOp = true then rx.dec .data 1 else rx }.push { body := .req chiOp reqOp id }

/-- The end of `Transmit(CCIXSnpReq*)`. -/
def transmitSnp : Port := { p with rxCredits := p.rxCredits.dec .snoop 1, snooper := .idle }.push { body := .snpReq }

/-- `Transmit(CCIXSnpReq*)`: the first test, and the wait. -/
def snoop : Port := if p.rxCredits .snoop = 0 then { p with snooper := .waiting } else p.transmitSnp

/-- The transmit thread's turn. -/
def txThread : Option Port :=
  if p.txCredits.hasCredits = true then
    some { p with txCredits := p.txCredits.afterSetup, wire := p.wire ++ [{ body := .creditGrant p.txCredits.setupCredits }] }
  else match p.txList with
    | [] => none
    | t :: l => some { p with txList := l, wire := p.wire ++ [t] }

/-- `UpdateRxCredits`, which notifies `m_rxCreditsEvent`. -/
def updateRxCredits (c : LinkCredits) : Port :=
  { p with rxCredits := fun k => p.rxCredits k + c k, snooper := if p.snooper = .waiting then .notified else p.snooper }

/-- `ReturnCHIReqID`: the credits that `CCIXReq_Done_HN` gives back. -/
def returnCredits (hasData : Bool) : Port :=
  let tx := p.txCredits.inc .req 1
  { p with txCredits := if hasData = true then tx.inc .data 1 else tx }

/-- `CCIXReq_Done_HN` for the request at a place of the list. -/
def doneHN (i : ℕ) (hasData : Bool) : Port := { p.returnCredits hasData with hn := p.hn.eraseIdx i }

/-- `CCIXSnpReq_Done_RN` for the snoop at a place of the list. -/
def doneSnp (i : ℕ) : Port := { p with txCredits := p.txCredits.inc .snoop 1, rnSnpReq := p.rnSnpReq.eraseIdx i }

/-- `Receive_CCIXReq`. -/
def receiveReq (reqOp id : BitVec 8) : Option Port :=
  (toCHI reqOp).map fun chiOp =>
    { p with hn := p.hn ++ [⟨chiOp, reqOp, id, isSnpRead chiOp || isDataLessWithCompAck chiOp, none⟩] }

/-- `Receive_CCIXSnpResp` of a `CompAck`, with its assertion. -/
def receiveCompAck (id : BitVec 8) : Option Port :=
  match p.hn.findIdx? fun e => decide (e.id = id) with
  | some i => if (p.hn[i]?.map HNReq.expCompAck) = some true then some (p.doneHN i false) else none
  | none => none

/-- `ReceiveCCIX`. Responses to requests do not change the credits of the requesting side. -/
def receive (t : Txn) : Option Port :=
  let p := if t.msgCredit = 0 then p else p.updateRxCredits (extractCredit t.msgCredit)
  match t.body with
  | .req _ reqOp id => p.receiveReq reqOp id
  | .snpReq => some { p with rnSnpReq := p.rnSnpReq ++ [false] }
  | .compData => some p
  | .comp => some p
  | .snpResp => some p
  | .compAck id => p.receiveCompAck id
  | .creditGrant c => some (p.updateRxCredits c)

/-- `ProcessDat` and `ProcessResp` for the request at a place of `m_ccix_HN`. -/
def answer (i : ℕ) (a : Answer) : Option Port := do
  let e ← p.hn[i]?
  match a with
  | .compData =>
    -- here the request is done before the response is transmitted
    if e.expCompAck = true then some (p.push { body := .compData })
    else some ((p.doneHN i (isAtomicNonStore e.reqOp)).push { body := .compData })
  | .comp =>
    if e.expCompAck = true then some (p.push { body := .comp })
    else some ({ p with hn := p.hn.set i { e with returning := some (!isDataLess e.chiOp) } }.push { body := .comp })
  | .dbidResp =>
    if isAtomicNonStore e.reqOp = true then some p
    else some ({ p with hn := p.hn.set i { e with returning := some true } }.push { body := .comp })

/-- The rest of the thread that answered a request. -/
def retire (i : ℕ) : Option Port := do
  let e ← p.hn[i]?
  return p.doneHN i (← e.returning)

/-- The answer to a snoop. -/
def answerSnp (i : ℕ) : Option Port :=
  if p.rnSnpReq[i]? = some false then some ({ p with rnSnpReq := p.rnSnpReq.set i true }.push { body := .snpResp }) else none

/-- The rest of the thread that answered a snoop. -/
def retireSnp (i : ℕ) : Option Port := if p.rnSnpReq[i]? = some true then some (p.doneSnp i) else none

/-- The next message takes credits that wait to be granted with it. -/
def piggyback (c : BitVec 8) : Option Port :=
  match p.txList with
  | [] => none
  | t :: l =>
    if t.msgCredit = 0 ∧ ∀ k, msgCreditField c k ≤ p.txCredits k then
      some { p with txCredits := fun k => p.txCredits k - msgCreditField c k, txList := { t with msgCredit := c } :: l }
    else none

end Port

/-! ### The two ports -/

inductive End where
  | a | b
  deriving DecidableEq

def End.other : End → End
  | .a => .b
  | .b => .a

/-- The two ports of a link. -/
abbrev Sys := End → Port

inductive Act where
  /-- A request with the CHI opcode, the `Resp` of its data and `SnoopMe`. -/
  | request (e : End) (op resp : BitVec 8) (snoopMe : Bool) (id : BitVec 8)
  | snoop (e : End)
  | resume (e : End)
  | transmit (e : End)
  | deliver (e : End)
  | answer (e : End) (i : ℕ) (a : Answer)
  | retire (e : End) (i : ℕ)
  | compAck (e : End) (id : BitVec 8)
  | answerSnp (e : End) (i : ℕ)
  | retireSnp (e : End) (i : ℕ)
  | piggyback (e : End) (c : BitVec 8)

namespace Sys

variable (s : Sys)

/-- A step of one port alone. -/
def local? (e : End) (f : Port → Option Port) : Option Sys := (f (s e)).map fun p => Function.update s e p

/-- The message that port `e` sent first arrives at the other. -/
def deliver (e : End) : Option Sys :=
  match (s e).wire with
  | [] => none
  | t :: l => ((s e.other).receive t).map fun q => Function.update (Function.update s e { s e with wire := l }) e.other q

def step : Act → Option Sys
  | .request e op resp snoopMe id =>
    (outgoingOp op resp snoopMe).bind fun reqOp => s.local? e fun p => if p.PassesWait op then some (p.transmitReq op reqOp id) else none
  | .snoop e => s.local? e fun p => if p.snooper = .idle then some p.snoop else none
  | .resume e => s.local? e fun p => if p.snooper = .notified then some p.transmitSnp else none
  | .transmit e => s.local? e Port.txThread
  | .deliver e => s.deliver e
  | .answer e i a => s.local? e fun p =>
      if ∃ r ∈ p.hn[i]?, r.returning = none ∧ a.IsFor r.chiOp then p.answer i a else none
  | .retire e i => s.local? e fun p => p.retire i
  | .compAck e id => s.local? e fun p => some (p.push { body := .compAck id })
  | .answerSnp e i => s.local? e fun p => p.answerSnp i
  | .retireSnp e i => s.local? e fun p => p.retireSnp i
  | .piggyback e c => s.local? e fun p => p.piggyback c

/-- The ports after reset. -/
def init : Sys := fun _ => {}

end Sys

end LibSystemCTLM.Ccix
