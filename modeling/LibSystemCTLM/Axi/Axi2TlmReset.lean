import LibSystemCTLM.Axi.Axi2TlmInputs

/-!
# Reset of `axi2tlm_bridge`

One direction of the bridge, with `resetn`, the counters of its transactions and its barriers, and the
flags by which `TLMListClear` tells the transactions it may free from those the target still has
(`axi2tlm-bridge.h`).

## The model

What happens between two waits of a SystemC thread is one step. `reset` is the falling edge of `resetn`
together with what the `reset` thread does; what the other threads do about it are steps of their own, in
any order, while `resetn` is low: `start`, `ret` and `abort` for the threads of `RunTLMTransaction`,
`abortResp` for the response thread. Transactions keep coming and going, so `reset` may come at any time.

The counters are `unsigned int`s, and so is their difference. `outstanding` lists what the bridge has
accepted and neither answered nor aborted.

## Honest scope

A reset lasts until the threads that look at it have seen it, one rising edge of the clock. The data and
the locks of the ACE snoop channels are left out; waiting for the latter is a step.
-/

namespace LibSystemCTLM.Axi.Reset

open Foundation

/-- A transaction of `rtList` or `wtList`. -/
structure Item where
  tr : Transaction
  tlmOngoing : Bool := false
  abortScheduled : Bool := false
  deriving DecidableEq

/-- Where a thread of `RunTLMTransaction` stands. -/
inductive Pc where
  /-- It has not run yet. -/
  | start
  /-- It waits in the loop over `WaitForTransactions`. -/
  | waiting (tr : Transaction)
  /-- It is in the target's `b_transport`. -/
  | calling (tr : Transaction)
  /-- It waits for the annotated delay. -/
  | delaying (tr : Transaction)
  /-- It is blocked in `fifo->write`. -/
  | writing (tr : Transaction)
  deriving DecidableEq

/-- The transaction of a thread, as long as it is in the list. -/
def Pc.tr? : Pc → Option Transaction
  | .waiting tr | .calling tr | .delaying tr => some tr
  | .start | .writing _ => none

/-- A thread and the ID it was spawned for. -/
structure Thread where
  transactionID : BitVec 32
  pc : Pc
  deriving DecidableEq

/-- Where `read_data_phase` or `write_resp_phase` stands. -/
inductive Resp where
  /-- It reads from the fifo. -/
  | idle
  /-- It is in `wait_for_snoop_channel`. -/
  | snoop (tr : Transaction)
  /-- It drives the response. -/
  | handshake (tr : Transaction)
  /-- It waits for `rack` or `wack`. -/
  | ack (tr : Transaction)
  /-- It is in `wait_for_reset_release`. -/
  | held
  deriving DecidableEq

/-- The transaction that is being answered. -/
def Resp.tr? : Resp → Option Transaction
  | .snoop tr | .handshake tr | .ack tr => some tr
  | .idle | .held => none

/-- One direction of the bridge. In `dataList` (`wrDataList`) a transaction stands with its `m_beat`. -/
structure State where
  resetn : Bool := true
  dataList : List (Transaction × ℕ) := []
  list : List Item := []
  threads : List Thread := []
  fifo : List Transaction := []
  resp : Resp := .idle
  numTransactions : BitVec 32 := 0
  numBarriers : BitVec 32 := 0
  next : ℕ := 0
  deriving DecidableEq

/-- What happens next; threads are named by their place. -/
inductive Action where
  | address (p : AddressPhase)
  | data (wid : BitVec 32)
  | start (k : ℕ)
  | issue (k : ℕ)
  | ret (k : ℕ)
  | delayed (k : ℕ)
  | written (k : ℕ)
  | respond | snooped | answered | acked
  | reset
  | abort (k : ℕ)
  | abortResp
  | release
  deriving DecidableEq

/-- A barrier that `m_numReadBarriers` or `m_numWriteBarriers` counts. -/
def counted (proto : Protocol) (tr : Transaction) : Bool := decide (proto = .ace) && tr.barrier

namespace State

variable (proto : Protocol) (dir : Direction) (s : State)

/-- `get_num_ongoing_read`, `get_num_ongoing_write`. -/
def getNumOngoing : BitVec 32 := s.numTransactions - s.numBarriers

/-- `assert_arready`, `assert_awready`. -/
def assertReady : Bool :=
  decide (s.getNumOngoing.toNat < maxTransactions) && !(decide (proto = .ace) && decide (maxBarriers ≤ s.numBarriers.toNat))

/-- What has been accepted and neither answered nor aborted. -/
def outstanding : List Transaction :=
  s.dataList.map Prod.fst ++ (s.list.filter fun i => !i.abortScheduled).map Item.tr ++ s.fifo ++ s.resp.tr?.toList

/-! ### The steps -/

/-- The transaction is put into the list, and a thread is spawned for its ID if there is none. -/
def enqueue (tr : Transaction) : State :=
  { s with
    list := s.list ++ [{ tr := tr }]
    threads := if inList (s.list.map Item.tr) tr.transactionId then s.threads else s.threads ++ [⟨tr.transactionId, .start⟩] }

/-- `read_address_phase`, `write_address_phase`. -/
def addressPhase (p : AddressPhase) : Option State :=
  let tr := Transaction.ofPhase proto dir s.next p
  if !s.resetn || !s.assertReady proto || decide (dir = .read) && decide (proto.maxBurstLength < tr.burstLen) then none
  else
    let s₁ := { s with
      next := s.next + 1
      numTransactions := s.numTransactions + 1
      numBarriers := if counted proto tr = true then s.numBarriers + 1 else s.numBarriers }
    match dir with
    | .read => some (s₁.enqueue tr)
    | .write =>
      if !tr.hasData proto && s.dataList.isEmpty then some (s₁.enqueue tr)
      else some { s₁ with dataList := s.dataList ++ [(tr, 1)] }

/-- The loop at the end of `write_data_phase` over the transactions without data. -/
def drain : List (Transaction × ℕ) → State → State
  | [], s => { s with dataList := [] }
  | (tr, beat) :: l, s => if tr.hasData proto then { s with dataList := (tr, beat) :: l } else drain l (s.enqueue tr)

/-- A beat of `write_data_phase`; it is an error when no transaction takes it. -/
def dataPhase (wid : BitVec 32) : Option State :=
  match s.dataList.find? (Channel.takesData proto wid) with
  | none => none
  | some (wt, beat) =>
    if s.resetn = false ∨ proto = .axi3 ∧ previousHaveData s.dataList wid = false then none
    else if wt.burstLen < beat + 1 then
      let l := s.dataList.eraseP (Channel.takesData proto wid)
      let s₁ := { s with dataList := l }.enqueue wt
      some (if proto.isAce then drain proto l s₁ else s₁)
    else some { s with dataList := s.dataList.map fun e => if e.1 = wt then (wt, beat + 1) else e }

/-- `SetTLMOngoing`. -/
def setTLMOngoing (tr : Transaction) : State :=
  { s with list := s.list.map fun i => if i.tr = tr then { i with tlmOngoing := true } else i }

/-- `list->remove`. -/
def remove (tr : Transaction) : State := { s with list := s.list.filter fun i => decide (i.tr ≠ tr) }

/-- The head of the loop of `RunTLMTransaction`: the next transaction, or the end of the thread. -/
def pick (k : ℕ) (id : BitVec 32) : State :=
  match getFirstWithID (s.list.map Item.tr) id with
  | some tr => { s.setTLMOngoing tr with threads := s.threads.set k ⟨id, .waiting tr⟩ }
  | none => { s with threads := s.threads.eraseIdx k }

/-- `AbortScheduled`. -/
def isAbortScheduled (tr : Transaction) : Bool := s.list.any fun i => decide (i.tr = tr) && i.abortScheduled

/-- A thread leaves its loop under reset: its transaction is removed, and it ends when reset does. -/
def leave (k : ℕ) (tr : Transaction) : State := { s.remove tr with threads := s.threads.eraseIdx k }

/-- The end of a response that no reset has interrupted. -/
def done (tr : Transaction) : State :=
  { s with
    resp := .idle
    numTransactions := s.numTransactions - 1
    numBarriers := if counted proto tr = true then s.numBarriers - 1 else s.numBarriers }

/-- `TLMListClear`. -/
def tlmListClear (l : List Item) : List Item := (l.filter Item.tlmOngoing).map fun i => { i with abortScheduled := true }

/-- The threads that wait for the falling edge of `resetn` have run. -/
def settled : Bool := s.threads.all (fun th => match th.pc with | .calling _ | .writing _ => true | _ => false) && s.resp.tr?.isNone

/-- One step. -/
def step (s : State) : Action → Option State
  | .address p => s.addressPhase proto dir p
  | .data wid => if dir = .write then s.dataPhase proto wid else none
  | .start k =>
    match s.threads[k]? with
    | some ⟨id, .start⟩ => some (s.pick k id)
    | _ => none
  | .issue k =>
    match s.threads[k]? with
    | some ⟨id, .waiting tr⟩ =>
      if s.resetn = false ∨ waitForTransactions proto (s.list.map Item.tr) tr = true then none
      else some { s with threads := s.threads.set k ⟨id, .calling tr⟩ }
    | _ => none
  | .ret k =>
    match s.threads[k]? with
    | some ⟨id, .calling tr⟩ =>
      if s.resetn = false then some (s.leave k tr)
      else if s.isAbortScheduled tr = true then some ((s.remove tr).pick k id)
      else some { s with threads := s.threads.set k ⟨id, .delaying tr⟩ }
    | _ => none
  | .delayed k =>
    match s.threads[k]? with
    | some ⟨id, .delaying tr⟩ =>
      if s.resetn = false then none
      else if s.fifo.length < fifoSize then some ({ s.remove tr with fifo := s.fifo ++ [tr] }.pick k id)
      else some { s.remove tr with threads := s.threads.set k ⟨id, .writing tr⟩ }
    | _ => none
  | .written k =>
    match s.threads[k]? with
    | some ⟨id, .writing tr⟩ => if s.fifo.length < fifoSize then some ({ s with fifo := s.fifo ++ [tr] }.pick k id) else none
    | _ => none
  | .respond =>
    match s.resp, s.fifo with
    | .idle, tr :: rest =>
      some { s with resp := if proto = .ace ∧ dir = .read then .snoop tr else .handshake tr, fifo := rest }
    | _, _ => none
  | .snooped =>
    match s.resp with
    | .snoop tr => some { s with resp := .handshake tr }
    | _ => none
  | .answered =>
    match s.resp with
    | .handshake tr =>
      if s.resetn = false then none else if proto = .ace then some { s with resp := .ack tr } else some (s.done proto tr)
    | _ => none
  | .acked =>
    match s.resp with
    | .ack tr => if s.resetn = false then none else some (s.done proto tr)
    | _ => none
  | .reset =>
    if s.resetn = false then none
    else some { s with resetn := false, dataList := [], list := tlmListClear s.list, fifo := [], numTransactions := 0 }
  | .abort k =>
    match s.threads[k]? with
    | some ⟨_, .waiting tr⟩ | some ⟨_, .delaying tr⟩ => if s.resetn = false then some (s.leave k tr) else none
    | _ => none
  | .abortResp =>
    if s.resetn = true then none
    else
      match s.resp with
      | .snoop _ => some { s with resp := .held }
      | .handshake tr => some { s with resp := if proto = .ace then .ack tr else .held }
      | .ack tr => some { s with resp := .held, numBarriers := if counted proto tr = true then s.numBarriers - 1 else s.numBarriers }
      | .idle | .held => none
  | .release =>
    if s.resetn = false ∧ s.settled = true then some { s with resetn := true, resp := .idle } else none

/-! ### What a reset leaves behind -/

/-- The counted barriers whose response is being given. -/
def respBarriers : ℕ :=
  match s.resp with
  | .handshake tr | .ack tr => if counted proto tr = true then 1 else 0
  | _ => 0

/-- What is asked of a step. In ACE, where barriers come on top of the limit of transactions, a
transaction finds room in the fifo, and when reset is asserted every counted barrier is being answered. -/
def StepOk (s : State) : Action → Prop
  | .delayed _ => proto = .ace → s.fifo.length < fifoSize
  | .reset => proto = .ace → s.numBarriers = BitVec.ofNat 32 (s.respBarriers proto)
  | _ => True

instance (s : State) (a : Action) : Decidable (StepOk proto s a) := by
  cases a <;> simp only [StepOk] <;> infer_instance

/-- The counters are right, a reset clears them and the lists, and the bridge accepts again. -/
structure Recovers : Prop where
  /-- The counters count what is outstanding, and their difference does not underflow. -/
  counters : s.resetn = true →
    s.numTransactions.toNat = s.outstanding.length ∧ s.numBarriers.toNat = s.outstanding.countP (counted proto) ∧
      s.getNumOngoing.toNat = s.outstanding.countP fun tr => !counted proto tr
  /-- The bridge accepts up to its maximum number of transactions and of barriers. -/
  ready : s.resetn = true →
    (s.assertReady proto = true ↔ (s.outstanding.countP fun tr => !counted proto tr) < maxTransactions ∧
      s.outstanding.countP (counted proto) < maxBarriers)
  /-- What reset leaves in the list are the transactions the target has, and they are to be aborted. -/
  reset : ∀ s', step proto dir s .reset = some s' →
    s'.numTransactions = 0 ∧ s'.dataList = [] ∧ s'.fifo = [] ∧
      ∀ i ∈ s'.list, i.abortScheduled = true ∧ ∃ th ∈ s'.threads, th.pc.tr? = some i.tr
  /-- After it nothing is outstanding, and no barrier is counted. -/
  release : ∀ s', step proto dir s .release = some s' →
    s'.outstanding = [] ∧ s'.numTransactions = 0 ∧ s'.numBarriers = 0 ∧ s'.assertReady proto = true ∧ s'.dataList = [] ∧ s'.fifo = [] ∧
      s'.resp = .idle ∧ ∀ i ∈ s'.list, i.abortScheduled = true ∧ ∃ th ∈ s'.threads, th.pc = .calling i.tr
  /-- A call that returns after the reset takes its transaction out of the list, and no more. -/
  dropped : ∀ k id tr s', s.resetn = true → s.threads[k]? = some ⟨id, .calling tr⟩ → s.isAbortScheduled tr = true →
    step proto dir s (.ret k) = some s' → (∀ i ∈ s'.list, i.tr ≠ tr) ∧ s'.outstanding = s.outstanding

end State

end LibSystemCTLM.Axi.Reset
