import LibSystemCTLM.Foundation.Runs
import Mathlib.Data.BitVec
import Mathlib.Data.Fintype.Basic

/-!
# The allocator of data RAM

`addr_allocator` gives each transaction that a bridge accepts a range of the locations of a data RAM. The ranges are
the nodes of a linked list in the order of their addresses; a new one goes behind the first node, by number, behind
which there is room for it, and the nodes of completed descriptors are taken out together.

## The model

A step is a clock edge with the inputs that are sampled at it: all registers take their next values from the values
before it. An allocation takes up to seven edges and a deallocation six, and requests that come meanwhile are kept.
The ledger is what happened: the request that is being served, what each node was allocated for and which descriptor
was assigned to it, and how often the node's descriptor was completed and the node freed.

## Honest scope

There are sixteen descriptors, as the tables of the source have it (`NODE_0` .. `NODE_F`, the sum of
`dealc_subcnt`). A run begins after reset. `addr_alc_offset` and `addr_alc_node_idx`, which have no reset, are read with
`addr_alc_valid` only.
-/

namespace LibSystemCTLM.Rtl

open Foundation

/-- The RAM: `RAM_MAX_LOCATION` is `2 ^ width`. Fewer than 256 locations do not elaborate. -/
structure Ram where
  width : ℕ
  le_width : 8 ≤ width
  width_le : width ≤ 31

/-- An index of a node or a descriptor. -/
abbrev Idx := Fin 16

abbrev Vec := Idx → Bool

namespace Vec

variable (v : Vec)

/-- `|v`. -/
def any : Bool := decide (∃ i, v i = true)

/-- `-v`: what is above the lowest bit that is set is turned round. -/
def neg : Vec := fun i => Bool.xor (v i) (decide (∃ j < i, v j = true))

/-- `v & (-v)`. -/
def lowest : Vec := fun i => v i && v.neg i

/-- The index of a one-hot vector, and whether it is one. -/
def oneHotIdx : Idx × Bool :=
  match (List.finRange 16).filter v with
  | [i] => (i, true)
  | _ => (0, false)

end Vec

/-- The inputs at an edge. -/
structure Inputs where
  txnValid : Bool := false
  txnSize : BitVec 8 := 0
  alcValid : Bool := false
  alcDescIdx : Idx := 0
  alcNodeIdx : Idx := 0
  txnCmpl : Vec := fun _ => false

/-! ### The linked list -/

structure LinkedList (w : ℕ) where
  headPtr : Idx := 0
  headPtrVld : Bool := false
  nodeVld : Vec := fun _ => false
  dataStrtOffset : Idx → BitVec w := fun _ => 0
  dataEndOffset : Idx → BitVec w := fun _ => 0
  dataLlIdx : Idx → Idx := fun _ => 0
  next : Idx → Idx := fun _ => 0
  nextVld : Vec := fun _ => false

/-! ### Allocation -/

inductive AlcState where
  | idle | newLl | udLl | calDiffOffset | calSpaceNode | checkAvail | failed | calIdx | addNode
  deriving DecidableEq

structure Alc (w : ℕ) where
  state : AlcState := .idle
  preAddrAlcValid : Bool := false
  preAddrAlcFailed : Bool := false
  addrAlcOffset : BitVec w := 0
  addrAlcNodeIdx : Idx := 0
  isWrapAround : Vec := fun _ => false
  diffOffsetCurrNextNowrap : Idx → BitVec (w + 1) := fun _ => 0
  diffOffsetCurrNextWrap : Idx → BitVec (w + 1) := fun _ => 0
  diffOffsetLastHeadNowrap : Idx → BitVec (w + 1) := fun _ => 0
  diffOffsetLastHeadWrap : Idx → BitVec (w + 1) := fun _ => 0
  diffOffset : Idx → BitVec (w + 1) := fun _ => 0
  spaceAvail : Vec := fun _ => false
  nodeAvail : Vec := fun _ => false
  posNodeVec : Vec := fun _ => false
  posNodeIdx : Idx := 0
  newNodeVec : Vec := fun _ => false
  newNodeIdx : Idx := 0

namespace Alc

variable {w : ℕ} (ll : LinkedList w) (a : Alc w)

/-- `RAM_MAX_LOCATION[RAM_OFFSET_WIDTH-1:0]`, to 32 bits. -/
def ramMaxLocation (w : ℕ) : BitVec 32 := ((BitVec.ofNat 32 (2 ^ w)).setWidth w).setWidth 32

/-- The differences of offsets are taken with one bit more, -/
def nowrap (strt stop : BitVec w) : BitVec (w + 1) := strt.setWidth (w + 1) - stop.setWidth (w + 1) - 1

/-- or with the 32 bits of the constant between them. -/
def wrap (strt stop : BitVec w) : BitVec (w + 1) := (ramMaxLocation w - 1 - stop.setWidth 32 + strt.setWidth 32).setWidth (w + 1)

/-- `ALC_IDLE`. -/
def idle : Alc w :=
  if ll.headPtrVld = false then { a with state := .newLl, preAddrAlcValid := true, preAddrAlcFailed := false }
  else { a with state := .udLl, preAddrAlcValid := false, preAddrAlcFailed := false }

/-- `ALC_UD_LL`. -/
def udLl : Alc w :=
  { a with
    state := .calDiffOffset
    preAddrAlcValid := false
    preAddrAlcFailed := false
    isWrapAround := fun i =>
      if ll.nodeVld i = true then
        if ll.nextVld i = true then !decide (ll.dataEndOffset i < ll.dataStrtOffset (ll.next i))
        else !decide (ll.dataEndOffset i < ll.dataStrtOffset ll.headPtr)
      else false
    diffOffsetCurrNextNowrap := fun i => nowrap (ll.dataStrtOffset (ll.next i)) (ll.dataEndOffset i)
    diffOffsetCurrNextWrap := fun i => wrap (ll.dataStrtOffset (ll.next i)) (ll.dataEndOffset i)
    diffOffsetLastHeadNowrap := fun i => nowrap (ll.dataStrtOffset ll.headPtr) (ll.dataEndOffset i)
    diffOffsetLastHeadWrap := fun i => wrap (ll.dataStrtOffset ll.headPtr) (ll.dataEndOffset i) }

/-- `ALC_CAL_DIFF_OFFSET`. -/
def calDiffOffset : Alc w :=
  { a with
    state := .calSpaceNode
    preAddrAlcValid := false
    preAddrAlcFailed := false
    diffOffset := fun i =>
      if ll.nodeVld i = true then
        if ll.nextVld i = true then if a.isWrapAround i = false then a.diffOffsetCurrNextNowrap i else a.diffOffsetCurrNextWrap i
        else if a.isWrapAround i = false then a.diffOffsetLastHeadNowrap i else a.diffOffsetLastHeadWrap i
      else 0 }

/-- `ALC_CAL_SPACE_NODE`. -/
def calSpaceNode (addrTxnSize : BitVec 8) : Alc w :=
  { a with
    state := .checkAvail
    preAddrAlcValid := false
    preAddrAlcFailed := false
    spaceAvail := fun i => decide (addrTxnSize.toNat + 1 ≤ (a.diffOffset i).toNat)
    nodeAvail := fun i => !ll.nodeVld i }

/-- `ALC_CHECK_AVAIL`. -/
def checkAvail : Alc w :=
  { a with
    state := if (a.nodeAvail.any && a.spaceAvail.any) = true then .calIdx else .failed
    preAddrAlcValid := false
    preAddrAlcFailed := !(a.nodeAvail.any && a.spaceAvail.any)
    posNodeVec := a.spaceAvail.lowest
    newNodeVec := a.nodeAvail.lowest }

/-- `ALC_CAL_IDX`. -/
def calIdx : Alc w :=
  { a with
    state := .addNode
    preAddrAlcValid := true
    preAddrAlcFailed := false
    posNodeIdx := a.posNodeVec.oneHotIdx.1
    newNodeIdx := a.newNodeVec.oneHotIdx.1 }

/-- The end of an allocation. -/
def done : Alc w := { a with state := .idle, preAddrAlcValid := false, preAddrAlcFailed := false }

end Alc

namespace LinkedList

variable {w : ℕ} (ll : LinkedList w)

/-- The list in `ALC_NEW_LL`. -/
def newLl (addrTxnSize : BitVec 8) : LinkedList w :=
  { ll with
    headPtrVld := true
    headPtr := 0
    nodeVld := Function.update ll.nodeVld 0 true
    dataStrtOffset := Function.update ll.dataStrtOffset 0 0
    dataEndOffset := Function.update ll.dataEndOffset 0 (addrTxnSize.setWidth w)
    dataLlIdx := Function.update ll.dataLlIdx 0 0
    next := Function.update ll.next 0 0
    nextVld := Function.update ll.nextVld 0 false }

/-- The list in `ALC_ADD_NODE`: a node behind another one. -/
def addNode (addrTxnSize : BitVec 8) (posNodeIdx newNodeIdx : Idx) : LinkedList w :=
  let dataLlIdx := fun i => if ll.dataLlIdx posNodeIdx < ll.dataLlIdx i ∧ ll.nodeVld i = true then ll.dataLlIdx i + 1 else ll.dataLlIdx i
  let next := Function.update ll.next newNodeIdx (if ll.nextVld posNodeIdx = false then 0 else ll.next posNodeIdx)
  let nextVld := Function.update ll.nextVld newNodeIdx (ll.nextVld posNodeIdx)
  { ll with
    next := Function.update next posNodeIdx newNodeIdx
    nextVld := Function.update nextVld posNodeIdx true
    nodeVld := Function.update ll.nodeVld newNodeIdx true
    dataStrtOffset := Function.update ll.dataStrtOffset newNodeIdx (ll.dataEndOffset posNodeIdx + 1)
    dataEndOffset := Function.update ll.dataEndOffset newNodeIdx (ll.dataEndOffset posNodeIdx + 1 + addrTxnSize.setWidth w)
    dataLlIdx := Function.update dataLlIdx newNodeIdx (ll.dataLlIdx posNodeIdx + 1) }

end LinkedList

/-! ### Deallocation -/

inductive DealcState where
  | idle | calSubVec | calSubcnt | calLlIdx | calNextVec | updateLl
  deriving DecidableEq

structure Dealc where
  state : DealcState := .idle
  preAddrDealcValid : Vec := fun _ => false
  addrFreeupLogicalVec : Vec := fun _ => false
  dealcSubVec : Idx → Vec := fun _ _ => false
  dealcSubcnt : Idx → Idx := fun _ => 0
  dealcHeadVec : Vec := fun _ => false
  dealcNextVec : Idx → Vec := fun _ _ => false

namespace Dealc

variable {w : ℕ} (ll : LinkedList w) (d : Dealc)

/-- `DEALC_IDLE`: the nodes that go. -/
def idle (freeup : Vec) : Dealc := { d with state := .calSubVec, preAddrDealcValid := fun _ => false, addrFreeupLogicalVec := freeup }

/-- `DEALC_CAL_SUB_VEC`. -/
def calSubVec : Dealc :=
  { d with
    state := .calSubcnt
    preAddrDealcValid := fun _ => false
    dealcSubVec := fun i j =>
      if ll.nodeVld i = true then if d.addrFreeupLogicalVec j = true then decide (ll.dataLlIdx j < ll.dataLlIdx i) else false
      else false }

/-- `DEALC_CAL_SUBCNT`: a sum of sixteen bits, in four. -/
def calSubcnt : Dealc :=
  { d with
    state := .calLlIdx
    preAddrDealcValid := fun _ => false
    dealcSubcnt := fun i => if ll.nodeVld i = true then Fin.ofNat 16 ((List.finRange 16).countP (d.dealcSubVec i)) else 0 }

/-- `DEALC_CAL_LL_IDX`. -/
def calLlIdx : Dealc := { d with state := .calNextVec, preAddrDealcValid := fun _ => false }

/-- `DEALC_CAL_NEXT_VEC`. -/
def calNextVec (addrFreeupDescVec : Vec) : Dealc :=
  { d with
    state := .updateLl
    preAddrDealcValid := addrFreeupDescVec
    dealcHeadVec := fun i => decide (ll.dataLlIdx i = 0) && ll.nodeVld i
    dealcNextVec := fun i j =>
      if ll.nodeVld i = true then
        decide ((ll.dataLlIdx i).val ≤ 14) && decide ((ll.dataLlIdx i).val + 1 = (ll.dataLlIdx j).val) && ll.nodeVld j
      else false }

/-- The end of a deallocation. -/
def done : Dealc := { d with state := .idle, preAddrDealcValid := fun _ => false }

end Dealc

namespace LinkedList

variable {w : ℕ} (ll : LinkedList w) (d : Dealc)

/-- The list in `DEALC_IDLE`. -/
def remove (freeup : Vec) : LinkedList w := { ll with nodeVld := fun i => if freeup i = true then false else ll.nodeVld i }

/-- The list in `DEALC_CAL_LL_IDX`. -/
def renumber : LinkedList w := { ll with dataLlIdx := fun i => if ll.nodeVld i = true then ll.dataLlIdx i - d.dealcSubcnt i else 0 }

/-- The list in `DEALC_UPDATE_LL`. -/
def updateLl : LinkedList w :=
  { ll with
    headPtr := d.dealcHeadVec.oneHotIdx.1
    headPtrVld := d.dealcHeadVec.oneHotIdx.2
    next := fun i => if ll.nodeVld i = true then (d.dealcNextVec i).oneHotIdx.1 else 0
    nextVld := fun i => if ll.nodeVld i = true then (d.dealcNextVec i).oneHotIdx.2 else false }

end LinkedList

/-! ### Services -/

inductive SerState where
  | idle | alc | waitDealc | dealc
  deriving DecidableEq

structure Service where
  serState : SerState := .idle
  serValid : Bool := false
  serDealcAlc : Bool := false

namespace Service

/-- A state with the service it gives: in each state of the source the two bits are those of the next state. -/
def go : SerState → Service
  | .idle => ⟨.idle, false, false⟩
  | .alc => ⟨.alc, true, false⟩
  | .waitDealc => ⟨.waitDealc, false, false⟩
  | .dealc => ⟨.dealc, true, true⟩

/-- The service control. -/
def next (ser : Service) (addrTxnValid addrFreeupValid preAddrAlcValid preAddrAlcFailed preAddrDealcValid : Bool) : Service :=
  match ser.serState with
  | .idle => if addrTxnValid = true then go .alc else if addrFreeupValid = true then go .dealc else go .idle
  | .alc =>
      if preAddrAlcValid = true then if addrFreeupValid = true then go .dealc else go .idle
      else if preAddrAlcFailed = true then if addrFreeupValid = true then go .dealc else go .waitDealc
      else go .alc
  | .waitDealc => if addrFreeupValid = true then go .dealc else go .waitDealc
  | .dealc => if preAddrDealcValid = true then if addrTxnValid = true then go .alc else go .idle else go .dealc

end Service

/-! ### The registers -/

structure Regs (w : ℕ) where
  alcValidFf : Bool := false
  dataDescIdx : Idx → Idx := fun _ => 0
  dataDescIdxVld : Vec := fun _ => false
  dealcServiceVldFf : Bool := false
  txnValidFf : Bool := false
  addrTxnValid : Bool := false
  freeupValidFf : Vec := fun _ => false
  addrFreeupDescVecSave : Vec := fun _ => false
  addrFreeupDescVec : Vec := fun _ => false
  ser : Service := {}
  addrAlcValid : Bool := false
  alc : Alc w := {}
  dealc : Dealc := {}
  ll : LinkedList w := {}

namespace Regs

variable {w : ℕ} (s : Regs w) (x : Inputs)

/-- Rising edges. -/
def assigns : Bool := x.alcValid && !s.alcValidFf

def requests : Bool := x.txnValid && !s.txnValidFf

def completes : Vec := fun d => x.txnCmpl d && !s.freeupValidFf d

def dealcServiceVld : Bool := s.ser.serValid && s.ser.serDealcAlc

/-- The nodes that a deallocation frees. -/
def freeup : Vec := fun i => s.ll.nodeVld i && s.dataDescIdxVld i && s.addrFreeupDescVec (s.dataDescIdx i)

/-- The service of an allocation. -/
def alcService : Alc w × LinkedList w :=
  match s.alc.state with
  | .idle => (s.alc.idle s.ll, s.ll)
  | .newLl => ({ s.alc.done with addrAlcOffset := 0, addrAlcNodeIdx := 0 }, s.ll.newLl x.txnSize)
  | .udLl => (s.alc.udLl s.ll, s.ll)
  | .calDiffOffset => (s.alc.calDiffOffset s.ll, s.ll)
  | .calSpaceNode => (s.alc.calSpaceNode s.ll x.txnSize, s.ll)
  | .checkAvail => (s.alc.checkAvail, s.ll)
  | .failed => (s.alc.done, s.ll)
  | .calIdx => (s.alc.calIdx, s.ll)
  | .addNode =>
      ({ s.alc.done with addrAlcOffset := s.ll.dataEndOffset s.alc.posNodeIdx + 1, addrAlcNodeIdx := s.alc.newNodeIdx },
        s.ll.addNode x.txnSize s.alc.posNodeIdx s.alc.newNodeIdx)

/-- The service of a deallocation. -/
def dealcService : Dealc × LinkedList w :=
  match s.dealc.state with
  | .idle => (s.dealc.idle s.freeup, s.ll.remove s.freeup)
  | .calSubVec => (s.dealc.calSubVec s.ll, s.ll)
  | .calSubcnt => (s.dealc.calSubcnt s.ll, s.ll)
  | .calLlIdx => (s.dealc.calLlIdx, s.ll.renumber s.dealc)
  | .calNextVec => (s.dealc.calNextVec s.ll s.addrFreeupDescVec, s.ll)
  | .updateLl => (s.dealc.done, s.ll.updateLl s.dealc)

/-- The allocation, the deallocation and the list after an edge. -/
def serve : Alc w × Dealc × LinkedList w :=
  if s.ser.serValid = true then
    if s.ser.serDealcAlc = false then ((s.alcService x).1, s.dealc, (s.alcService x).2)
    else (s.alc, s.dealcService.1, s.dealcService.2)
  else (s.alc.done, s.dealc.done, s.ll)

/-- A clock edge. -/
def clock : Regs w where
  alcValidFf := x.alcValid
  dataDescIdx := if s.assigns x = true then Function.update s.dataDescIdx x.alcNodeIdx x.alcDescIdx else s.dataDescIdx
  dataDescIdxVld := fun i =>
    if s.addrFreeupDescVec (s.dataDescIdx i) = true ∧ s.dealcServiceVld = true ∧ s.dealcServiceVldFf = false then false
    else if i = x.alcNodeIdx ∧ s.assigns x = true then true
    else s.dataDescIdxVld i
  dealcServiceVldFf := s.dealcServiceVld
  txnValidFf := x.txnValid
  addrTxnValid := if s.alc.preAddrAlcValid = true then false else if s.requests x = true then true else s.addrTxnValid
  freeupValidFf := x.txnCmpl
  addrFreeupDescVecSave := fun d =>
    if s.dealc.preAddrDealcValid d = true then false else if s.completes x d = true then true else s.addrFreeupDescVecSave d
  addrFreeupDescVec := fun d =>
    if s.dealc.preAddrDealcValid d = true then false
    else if s.dealcServiceVld = true then s.addrFreeupDescVec d
    else s.addrFreeupDescVecSave d
  ser := s.ser.next s.addrTxnValid s.addrFreeupDescVec.any s.alc.preAddrAlcValid s.alc.preAddrAlcFailed s.dealc.preAddrDealcValid.any
  addrAlcValid := s.alc.preAddrAlcValid
  alc := (s.serve x).1
  dealc := (s.serve x).2.1
  ll := (s.serve x).2.2

end Regs

/-! ### The ledger -/

structure Ledger where
  /-- The `AXLEN` of the request that waits for its range. -/
  asked : Option (BitVec 8) := none
  /-- The `AXLEN` that each node was allocated for, and the descriptor that was assigned to it since. -/
  axlen : Idx → BitVec 8 := fun _ => 0
  owner : Idx → Option Idx := fun _ => none
  /-- How often the descriptor of each node was completed, and the node freed, and for how long it has not been. -/
  completed : Idx → ℕ := fun _ => 0
  freed : Idx → ℕ := fun _ => 0
  waited : Idx → ℕ := fun _ => 0

namespace Ledger

variable {w : ℕ} (l : Ledger) (s s' : Regs w) (x : Inputs)

/-- The descriptor of a node is completed. -/
def completes (i : Idx) : Bool := (l.owner i).any fun d => s.completes x d

/-- A node is allocated, or freed, from one edge to the next. -/
def gains (i : Idx) : Bool := !s.ll.nodeVld i && s'.ll.nodeVld i

def loses (i : Idx) : Bool := s.ll.nodeVld i && !s'.ll.nodeVld i

def clock : Ledger where
  asked := if s.alc.preAddrAlcValid = true then none else if s.requests x = true then some x.txnSize else l.asked
  axlen i := if gains s s' i = true then l.asked.getD 0 else l.axlen i
  owner i := if loses s s' i = true then none else if i = x.alcNodeIdx ∧ s.assigns x = true then some x.alcDescIdx else l.owner i
  completed i := l.completed i + if l.completes s x i = true then 1 else 0
  freed i := l.freed i + if loses s s' i = true then 1 else 0
  waited i := if l.freed i < l.completed i ∧ loses s s' i = false then l.waited i + 1 else 0

end Ledger

/-! ### Steps -/

structure State (r : Ram) where
  regs : Regs r.width := {}
  ledger : Ledger := {}

def step {r : Ram} (s : State r) (x : Inputs) : Option (State r) := some ⟨s.regs.clock x, s.ledger.clock s.regs (s.regs.clock x) x⟩

end LibSystemCTLM.Rtl
