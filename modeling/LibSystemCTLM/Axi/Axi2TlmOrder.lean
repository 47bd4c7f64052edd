import LibSystemCTLM.Ace.Transaction
import LibSystemCTLM.Foundation.Runs
import LibSystemCTLM.Foundation.Before

/-!
# The threads of `axi2tlm_bridge`

An AXI slave that turns bursts into TLM transactions (`axi2tlm-bridge.h`). Each direction has a
list of the transactions that are ready to be issued (`rtList`, `wtList`), a thread for each
transaction ID in the list that issues them, and a fifo to the thread that drives the responses.

## The model

The two directions share no list, so a `Channel` is one of them. What happens between two waits of
a SystemC thread is one step: an address phase, a write data beat, the start of a thread
(`RunTLMTransaction`), the call of the target's `b_transport`, its return, a blocked `fifo->write`
that goes on, and the two ends of a response. Steps come in any order, so every timing of the
downstream calls, of the master and of the scheduler is a run.

`accepted`, `queued`, `issued`, `completed` and `answered` list what went that way, in order; no
step reads them. A transaction's `serial` is the number it was accepted under, in place of the
pointer.

## Honest scope

Reset, the data, and the ACE snoop channels' locks, which only delay a response, are left out. The
ACE signals are bound to dummies under `V_AXI3`, so ACE comes with `V_AXI4`.
-/

namespace LibSystemCTLM.Axi

open Foundation Ace

/-- `AXIVersion` and `ACE_MODE`. -/
inductive Protocol where
  | axi3 | axi4 | ace | aceLite
  deriving DecidableEq

/-- `ACE_MODE` is not `ACE_MODE_OFF`. -/
def Protocol.isAce : Protocol → Bool
  | .ace | .aceLite => true
  | .axi3 | .axi4 => false

/-- `m_maxBurstLength`. -/
def Protocol.maxBurstLength : Protocol → ℕ
  | .axi3 => 16
  | _ => 256

/-- The read or the write side of the bridge. -/
inductive Direction where
  | read | write
  deriving DecidableEq

/-- The signals of an address phase. -/
structure AddressPhase where
  axid : BitVec 32
  axaddr : Ace.Addr
  axlen : ℕ
  arsnoop : AR := .readNoSnoop
  awsnoop : AW := .writeNoSnoop
  axdomain : Domain := .nonSharable
  axbar : BitVec 2 := 0
  deriving DecidableEq

/-- `Transaction`, as far as the order depends on it. -/
structure Transaction where
  serial : ℕ
  transactionId : BitVec 32
  address : Ace.Addr
  burstLen : ℕ
  cmd : Command
  domain : Domain
  barrier : Bool
  deriving DecidableEq

namespace Transaction

/-- `ace_helpers::IsEvict`. -/
def isEvictSnoop (domain : Domain) : AW → Bool
  | .evict => domain.isShareable
  | _ => false

/-- What an address phase makes of its signals, with `SetupSingleRdDataTransfers` or `SetupNoWrDataTransfers`. -/
def ofPhase (proto : Protocol) (dir : Direction) (serial : ℕ) (p : AddressPhase) : Transaction :=
  let barrier := proto.isAce && decide (p.axbar ≠ 0)
  let cmd : Command :=
    match dir with
    | .read =>
      if proto.isAce && hasSingleRdDataTransferSnoop p.axdomain p.arsnoop barrier then .ignoreRead p.arsnoop else .read p.arsnoop
    | .write =>
      if proto.isAce && (barrier || isEvictSnoop p.axdomain p.awsnoop) then .ignoreWrite p.awsnoop else .write p.awsnoop
  ⟨serial, p.axid, p.axaddr, p.axlen + 1, cmd, p.axdomain, barrier⟩

variable (tr : Transaction)

/-- `IsEvict`. -/
def isEvict : Bool :=
  match tr.cmd with
  | .ignoreWrite snoop => isEvictSnoop tr.domain snoop
  | _ => false

/-- `IsWriteBack`. -/
def isWriteBack : Bool :=
  match tr.cmd with
  | .write .writeBack => decide (tr.domain ≠ .system)
  | _ => false

/-- `IsWriteClean`. -/
def isWriteClean : Bool :=
  match tr.cmd with
  | .write .writeClean => decide (tr.domain ≠ .system)
  | _ => false

/-- `hasData`. -/
def hasData (proto : Protocol) : Bool := !(proto.isAce && (tr.barrier || tr.isEvict))

/-- The 4 KB page of the first byte. -/
def page : Ace.Addr := tr.address >>> 12

end Transaction

/-! ### The lists -/

/-- `GetFirstWithID`. -/
def getFirstWithID (list : List Transaction) (id : BitVec 32) : Option Transaction :=
  list.find? fun t => decide (t.transactionId = id)

/-- `InList`. -/
def inList (list : List Transaction) (id : BitVec 32) : Bool := list.any fun t => decide (t.transactionId = id)

/-- `PreviousHaveData`: a beat of 1 says that no data has been received. -/
def previousHaveData (list : List (Transaction × ℕ)) (id : BitVec 32) : Bool :=
  (list.takeWhile fun e => decide (e.1.transactionId ≠ id)).all fun e => decide (e.2 ≠ 1)

/-- `OverlappingAddress`. -/
def overlappingAddress (list : List Transaction) (tr : Transaction) : Bool :=
  (list.takeWhile (· ≠ tr)).any fun t => decide (t.page = tr.page)

/-- `is_after_barrier`. -/
def isAfterBarrier (list : List Transaction) (tr : Transaction) : Bool :=
  (list.takeWhile (· ≠ tr)).any Transaction.barrier

/-- `WaitForTransactions`. -/
def waitForTransactions (proto : Protocol) (list : List Transaction) (tr : Transaction) : Bool :=
  if proto.isAce && tr.barrier && decide (list.head? ≠ some tr) then true
  else if proto.isAce && !tr.barrier && isAfterBarrier list tr && !tr.isWriteBack && !tr.isWriteClean && !tr.isEvict then true
  else overlappingAddress list tr

/-! ### The channel -/

/-- Where a thread of `RunTLMTransaction` stands. -/
inductive Pc where
  /-- It has not run yet. -/
  | start
  /-- It has a transaction and waits in the loop over `WaitForTransactions`. -/
  | waiting (tr : Transaction)
  /-- It is in the target's `b_transport`, or waits for the annotated delay. -/
  | calling (tr : Transaction)
  /-- It is blocked in `fifo->write`. -/
  | writing (tr : Transaction)
  deriving DecidableEq

/-- A thread and the ID it was spawned for. -/
structure Thread where
  transactionID : BitVec 32
  pc : Pc
  deriving DecidableEq

/-- One direction of the bridge. In `dataList` (`wrDataList`) a transaction stands with its `m_beat`. -/
structure Channel where
  dataList : List (Transaction × ℕ) := []
  list : List Transaction := []
  threads : List Thread := []
  fifo : List Transaction := []
  responding : Option Transaction := none
  numTransactions : ℕ := 0
  numBarriers : ℕ := 0
  next : ℕ := 0
  accepted : List Transaction := []
  queued : List Transaction := []
  issued : List Transaction := []
  completed : List Transaction := []
  answered : List Transaction := []
  deriving DecidableEq

/-- `m_maxReadTransactions`, `m_maxWriteTransactions`. -/
def maxTransactions : ℕ := 16

/-- `ACE::MaxBarriers`. -/
def maxBarriers : ℕ := 256

/-- The size of an `sc_fifo` that is given none. -/
def fifoSize : ℕ := 16

/-- What happens next; threads are named by their place among the threads. -/
inductive Action where
  | address (p : AddressPhase)
  | data (wid : BitVec 32)
  | start (k : ℕ)
  | issue (k : ℕ)
  | ret (k : ℕ)
  | written (k : ℕ)
  | respond
  | answer
  deriving DecidableEq

namespace Channel

variable (proto : Protocol) (dir : Direction) (s : Channel)

/-- `assert_arready`, `assert_awready`. -/
def assertReady : Bool :=
  decide (s.numTransactions - s.numBarriers < maxTransactions) && !(decide (proto = .ace) && decide (maxBarriers ≤ s.numBarriers))

/-- The transaction is put into the list, and a thread is spawned for its ID if there is none. -/
def enqueue (tr : Transaction) : Channel :=
  { s with
    list := s.list ++ [tr]
    queued := s.queued ++ [tr]
    threads := if inList s.list tr.transactionId then s.threads else s.threads ++ [⟨tr.transactionId, .start⟩] }

/-- `read_address_phase`, `write_address_phase`. -/
def addressPhase (p : AddressPhase) : Option Channel :=
  let tr := Transaction.ofPhase proto dir s.next p
  if !s.assertReady proto || decide (dir = .read) && decide (proto.maxBurstLength < tr.burstLen) then none
  else
    let s₁ := { s with
      next := s.next + 1
      accepted := s.accepted ++ [tr]
      numTransactions := s.numTransactions + 1
      numBarriers := if proto = Protocol.ace ∧ tr.barrier = true then s.numBarriers + 1 else s.numBarriers }
    match dir with
    | .read => some (s₁.enqueue tr)
    | .write =>
      if !tr.hasData proto && s.dataList.isEmpty then some (s₁.enqueue tr)
      else some { s₁ with dataList := s.dataList ++ [(tr, 1)] }

/-- The loop at the end of `write_data_phase` over the transactions without data. -/
def drain : List (Transaction × ℕ) → Channel → Channel
  | [], s => { s with dataList := [] }
  | (tr, beat) :: l, s => if tr.hasData proto then { s with dataList := (tr, beat) :: l } else drain l (s.enqueue tr)

/-- The transaction whose data comes next: the first one, in AXI3 the first one of the ID. -/
def takesData (wid : BitVec 32) (e : Transaction × ℕ) : Bool := decide (proto ≠ .axi3) || decide (e.1.transactionId = wid)

/-- A beat of `write_data_phase`; it is an error when no transaction takes it. -/
def dataPhase (wid : BitVec 32) : Option Channel :=
  match s.dataList.find? (takesData proto wid) with
  | none => none
  | some (wt, beat) =>
    if proto = .axi3 ∧ previousHaveData s.dataList wid = false then none
    else if wt.burstLen < beat + 1 then
      let l := s.dataList.eraseP (takesData proto wid)
      let s₁ := { s with dataList := l }.enqueue wt
      some (if proto.isAce then drain proto l s₁ else s₁)
    else some { s with dataList := s.dataList.map fun e => if e.1 = wt then (wt, beat + 1) else e }

/-- The head of the loop of `RunTLMTransaction`: the next transaction, or the end of the thread. -/
def pick (k : ℕ) (id : BitVec 32) : Channel :=
  match getFirstWithID s.list id with
  | some tr => { s with threads := s.threads.set k ⟨id, .waiting tr⟩ }
  | none => { s with threads := s.threads.eraseIdx k }

/-- One step. -/
def step (s : Channel) : Action → Option Channel
  | .address p => s.addressPhase proto dir p
  | .data wid => if dir = .write then s.dataPhase proto wid else none
  | .start k =>
    match s.threads[k]? with
    | some ⟨id, .start⟩ => some (s.pick k id)
    | _ => none
  | .issue k =>
    match s.threads[k]? with
    | some ⟨id, .waiting tr⟩ =>
      if waitForTransactions proto s.list tr then none
      else some { s with threads := s.threads.set k ⟨id, .calling tr⟩, issued := s.issued ++ [tr] }
    | _ => none
  | .ret k =>
    match s.threads[k]? with
    | some ⟨id, .calling tr⟩ =>
      let s₁ := { s with list := s.list.erase tr, completed := s.completed ++ [tr] }
      if s.fifo.length < fifoSize then some ({ s₁ with fifo := s.fifo ++ [tr] }.pick k id)
      else some { s₁ with threads := s.threads.set k ⟨id, .writing tr⟩ }
    | _ => none
  | .written k =>
    match s.threads[k]? with
    | some ⟨id, .writing tr⟩ =>
      if s.fifo.length < fifoSize then some ({ s with fifo := s.fifo ++ [tr] }.pick k id) else none
    | _ => none
  | .respond =>
    match s.responding, s.fifo with
    | none, tr :: rest => some { s with responding := some tr, fifo := rest }
    | _, _ => none
  | .answer =>
    match s.responding with
    | some tr =>
      some { s with
        responding := none
        answered := s.answered ++ [tr]
        numTransactions := s.numTransactions - 1
        numBarriers := if proto = .ace ∧ tr.barrier = true then s.numBarriers - 1 else s.numBarriers }
    | none => none

/-! ### What the order is -/

/-- The transactions of an ID, in order. -/
def ofId (id : BitVec 32) (l : List Transaction) : List Transaction := l.filter fun t => decide (t.transactionId = id)

/-- The next step of a thread can issue `t`. -/
def Issues (t : Transaction) : Prop := ∃ k s', step proto dir s (.issue k) = some s' ∧ s'.issued = s.issued ++ [t]

/-- The order the bridge works in: that of acceptance. In AXI3 the data of writes may be interleaved,
and a write comes when its last data does. -/
def order : List Transaction := if proto = .axi3 ∧ dir = .write then s.queued else s.accepted

/-- What is issued and answered, and when, in the order the bridge works in. -/
structure Ordered : Prop where
  /-- The transactions of an ID are issued in the order they are accepted in. -/
  issued : ∀ id, ofId id s.issued <+: ofId id s.accepted
  /-- They are answered in that order. -/
  answered : ∀ id, ofId id s.answered <+: ofId id s.accepted
  /-- None is issued before one of its page that came earlier has completed. -/
  page : ∀ t, s.Issues proto dir t → ∀ u, Before (s.order proto dir) u t → u.page = t.page → u ∈ s.completed
  /-- A barrier is not issued before what came earlier has completed. -/
  barrier : proto.isAce = true → ∀ b, b.barrier = true → s.Issues proto dir b → ∀ u, Before (s.order proto dir) u b → u ∈ s.completed
  /-- Nor is what comes after it, except for `WriteBack`, `WriteClean` and `Evict`. -/
  afterBarrier : proto.isAce = true → ∀ t, s.Issues proto dir t → (t.isWriteBack || t.isWriteClean || t.isEvict) = false →
    ∀ b, b.barrier = true → Before (s.order proto dir) b t → ∀ u, Before (s.order proto dir) u b → u ∈ s.completed

/-- In ACE, where barriers come on top of the limit of transactions, a call returns when the fifo has room. -/
def RoomOk (s : Channel) : Action → Prop
  | .ret _ => proto = Protocol.ace → s.fifo.length < fifoSize
  | _ => True

instance (s : Channel) (a : Action) : Decidable (RoomOk proto s a) := by
  cases a <;> simp only [RoomOk] <;> infer_instance

end Channel

end LibSystemCTLM.Axi
