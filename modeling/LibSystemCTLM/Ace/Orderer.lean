import LibSystemCTLM.Ace.Snoop
import LibSystemCTLM.Foundation.Runs

/-!
# Many transactions in the interconnect at once

`iconnect_ace` with all its threads: transactions arrive at the ports and pass the
`OverlappingTxOrderer`, the snoop engine takes them in order and snoops the ports for every
cacheline, snoop transactions are done and write dirty data downstream, and transactions go
downstream themselves and complete, which restarts transactions that were waiting.

## The model

A state holds the lists the code holds: `m_ongoing_tx`, `m_overlapping_tx`, the snoop engine's
fifo, and the threads that wait to write to it. A transaction is named by the number of its
arrival; `phase` says where it is, and `segs` are its snoop transactions. A step is what one
thread does without waiting. Snooped ports answer whatever they like and in any order, snoop
transactions are finished and entries of the downstream fifo carried out in any order, and
whether an exclusive `CleanUnique` proceeds is up to the PoS monitor.

## Honest scope

Completing a transaction restarts others in one step, so the engine's fifo must have room for
them; a restart that blocks half done is not modelled. A DVM snoop is answered without data, as
the caches do, and the collecting of DVM completes, which touches no transaction, is left out.
-/

namespace LibSystemCTLM.Ace

open Foundation

namespace Transaction

variable (ls : LineSize) (tr other : Transaction)

/-- The cachelines the snoop engine goes through. -/
def lines : List Addr := (List.range (tr.numSegments ls)).map fun j => ls.getTag tr.address + BitVec.ofNat 64 (j * ls.size)

/-- The test of `is_overlapping` and of `restart_overlapping`. -/
def overlaps : Bool :=
  other.inAddressRange tr.address || other.inAddressRange (tr.address + BitVec.ofNat 64 tr.dataLength - 1) ||
    tr.inAddressRange other.address

/-- `IsDVMComplete`. -/
def isDVMComplete : Bool :=
  match tr.cmd with
  | .ignoreRead .dvmComplete => tr.genattr.domain.isShareable
  | _ => false

/-- A snooping transaction that is no DVM message: it is about cachelines. -/
def snoopsLines : Bool := tr.isSnoopingTransaction && !tr.isDVM

end Transaction

/-- How far a snoop transaction is. -/
inductive Stage where
  /-- Ports have still to answer. -/
  | snooping
  /-- In `m_snoop_done_fifo`. -/
  | snooped
  /-- Its `m_ds_gp` is in the downstream fifo. -/
  | downstream
  /-- Nothing is left but `finalize_snoop_tr`. -/
  | finalizing
  deriving DecidableEq, Repr

/-- A snoop transaction under way. -/
structure Seg (N : ℕ) where
  st : SnoopTransaction
  /-- The ports that have not answered. -/
  ports : List (Fin N)
  stage : Stage

/-- Where a transaction is. -/
inductive Phase where
  /-- It has not arrived. -/
  | absent
  /-- It waits for another transaction, or for room in the snoop engine's fifo. -/
  | waiting
  /-- In the snoop engine's fifo. -/
  | fifo
  /-- Its cachelines are snooped. -/
  | snooping
  /-- In the downstream fifo. -/
  | downstream
  /-- `DoneEvent` was notified. -/
  | notified
  /-- `b_transport` has returned. -/
  | returned
  deriving DecidableEq, Repr

/-- What happens to the cachelines. -/
inductive LineEvent where
  /-- A port's dirty data for the line was stored, to be written downstream. -/
  | capture (id : ℕ) (line : Addr)
  /-- The line was written downstream. -/
  | writeback (id : ℕ) (line : Addr)
  /-- A `WriteUnique` or `WriteLineUnique` was written downstream. -/
  | write (id : ℕ) (tr : Transaction)
  /-- A transaction has completed. -/
  | complete (id : ℕ)

/-- `iconnect_ace` with its transactions. -/
structure Orderer (N : ℕ) where
  tr : ℕ → Transaction
  phase : ℕ → Phase
  segs : ℕ → List (Seg N)
  /-- The number of the next transaction. -/
  next : ℕ
  /-- The threads that wait in `m_snoop_engine_fifo.write`, by transaction. -/
  blocked : List ℕ
  /-- `m_ongoing_tx`. -/
  ongoing : List ℕ
  /-- `m_overlapping_tx`. -/
  overlapping : List ℕ
  /-- `m_snoop_engine_fifo`. -/
  engine : List ℕ
  /-- The downstream memory. -/
  mem : Addr → Byte
  trace : List LineEvent

/-- What a thread does next. -/
inductive OrdererAction (N : ℕ) where
  /-- `b_transport` of a port. -/
  | transport (tr : Transaction)
  /-- A thread that waits to write to the engine's fifo goes on. -/
  | unblock (id : ℕ)
  /-- `snoop_engine_thread` takes the next transaction. -/
  | engine (proceed : Bool)
  /-- `snoop_master_thread`: a port answers the snoop transaction `k` of a transaction. -/
  | answer (id k : ℕ) (port : Fin N) (gp : SnoopGp)
  /-- `snoop_done_thread` takes the snoop transaction. -/
  | snoopDone (id k : ℕ)
  /-- `downstream_port_thread` carries out the snoop transaction's `m_ds_gp`. -/
  | dsGp (id k : ℕ)
  /-- `finalize_snoop_tr`. -/
  | finalize (id k : ℕ)
  /-- `downstream_port_thread` carries out the transaction. -/
  | downstream (id : ℕ)
  /-- The thread in `process` goes on after `DoneEvent`. -/
  | complete (id : ℕ)

/-- The depth of an `sc_fifo`. -/
def fifoSize : ℕ := 16

namespace Orderer

variable {N : ℕ} (ls : LineSize) (s : Orderer N)

/-- `is_overlapping`. -/
def isOverlapping (tr : Transaction) : Bool := s.ongoing.any fun u => tr.overlaps (s.tr u)

/-- A transaction is somewhere else now. -/
def setPhase (id : ℕ) (p : Phase) : Orderer N := { s with phase := Function.update s.phase id p }

/-- A transaction has changed. -/
def setTr (id : ℕ) (tr : Transaction) : Orderer N := { s with tr := Function.update s.tr id tr }

/-- The snoop transactions of a transaction have changed. -/
def setSegs (id : ℕ) (segs : List (Seg N)) : Orderer N := { s with segs := Function.update s.segs id segs }

/-- `to_snoop_engine`, when the fifo has room. -/
def toSnoopEngine (id : ℕ) : Orderer N := { s.setPhase id .fifo with engine := s.engine ++ [id] }

/-- `to_downstream_port`, and `m_ds_port.process` of a transaction. -/
def toDownstreamPort (id : ℕ) : Orderer N := s.setPhase id .downstream

/-- `process` up to the wait for `DoneEvent`. -/
def process (tr : Transaction) : Orderer N :=
  let id := s.next
  let s₁ := { s.setTr id { tr with nSegments := tr.numSegments ls, response := .incomplete } with next := id + 1 }
  if tr.isSnoopingTransaction then
    if s.isOverlapping tr && !tr.isDVM then
      { s₁.setPhase id .waiting with overlapping := s.overlapping ++ [id] }
    else if s.engine.length < fifoSize then
      { s₁.toSnoopEngine id with ongoing := s.ongoing ++ [id] }
    else
      -- `to_snoop_engine` waits, and the transaction is not yet in `m_ongoing_tx`
      { s₁.setPhase id .waiting with blocked := s.blocked ++ [id] }
  else { s₁.toDownstreamPort id with ongoing := s.ongoing ++ [id] }

/-- `b_transport` of a port. -/
def bTransport (tr : Transaction) : Orderer N := if tr.isEvict || tr.isBarrier then s else s.process ls tr

/-- The loop of `restart_overlapping` over the waiting transactions. -/
def restartOverlapping (tr : Transaction) : List ℕ → Orderer N → Orderer N
  | [], s => s
  | w :: ws, s =>
    if tr.overlaps (s.tr w) && !s.isOverlapping (s.tr w) then
      let s₁ := { s with overlapping := s.overlapping.erase w, ongoing := s.ongoing ++ [w] }
      restartOverlapping tr ws (if (s.tr w).isSnoopingTransaction then s₁.toSnoopEngine w else s₁.toDownstreamPort w)
    else restartOverlapping tr ws s

/-- The ports that `process_snoop` snoops. -/
def snoopedPorts (forwardDVM : Fin N → Bool) (tr : Transaction) : List (Fin N) :=
  (List.finRange N).filter fun i => !(tr.isDVM && !forwardDVM i) && decide (i.val ≠ tr.portId)

/-- `num_masters` of `snoop_engine_thread`. -/
def numMasters (forwardDVM : Fin N → Bool) (tr : Transaction) : ℕ :=
  if tr.isACELite then N else if tr.isDVM then (List.finRange N).countP forwardDVM - 1 else N - 1

/-- The snoop transactions of a transaction, as `snoop_engine_thread` sets them up. -/
def newSegs (forwardDVM : Fin N → Bool) (tr : Transaction) : List (Seg N) :=
  (List.range tr.nSegments).map fun j =>
    let st := SnoopTransaction.mk' tr (ls.getTag tr.address + BitVec.ofNat 64 (j * ls.size)) (numMasters forwardDVM tr)
    { st, ports := snoopedPorts forwardDVM tr, stage := if st.snoopDone then .snooped else .snooping }

/-- The transaction is done and `DoneEvent` is notified, or it goes downstream. -/
def finalizeTr (id : ℕ) (tr : Transaction) : Orderer N :=
  if tr.done then (s.setTr id tr).setPhase id .notified else (s.setTr id tr).toDownstreamPort id

/-- `finalize_snoop_tr`. -/
def finalizeSnoopTr (id k : ℕ) (st : SnoopTransaction) : Orderer N :=
  let tr := s.tr id
  let s₁ := s.setSegs id ((s.segs id).eraseIdx k)
  if tr.isReadOnce || tr.isWriteUnique then
    let tr' := { tr with
      nSegments := tr.nSegments - 1
      response := if st.gotErrorResponse then .genericError else tr.response }
    if tr'.nSegments ≠ 0 then s₁.setTr id tr'
    else s₁.finalizeTr id (if tr'.isReadOnce ∧ tr'.response = .incomplete then { tr' with response := .ok } else tr')
  else s₁.finalizeTr id tr

/-- The answer brings dirty data that is to be written downstream. -/
def capturesDirty (tr : Transaction) (gp : SnoopGp) : Bool :=
  gp.genattr.datatransfer && !tr.allowPassDirty && gp.genattr.dirty

/-- One step of a thread; `forwardDVM` are the ports that take part in DVM. -/
def step (forwardDVM : Fin N → Bool) : OrdererAction N → Option (Orderer N)
  | .transport tr => some (s.bTransport ls tr)
  | .unblock id =>
    if id ∈ s.blocked ∧ s.engine.length < fifoSize then
      some { s.toSnoopEngine id with blocked := s.blocked.erase id, ongoing := s.ongoing ++ [id] }
    else none
  | .engine proceed =>
    match s.engine with
    | [] => none
    | id :: rest =>
      let tr := s.tr id
      let s₁ := { s with engine := rest }
      if tr.isDVMComplete then some ((s₁.setTr id { tr with response := .ok }).setPhase id .notified)
      else if proceed = false then
        -- a failed exclusive `CleanUnique` ends here
        if tr.genattr.exclusive ∧ tr.isCleanUnique then some ((s₁.setTr id { tr with response := .ok }).setPhase id .notified)
        else none
      else some ((s₁.setSegs id (newSegs ls forwardDVM tr)).setPhase id .snooping)
  | .answer id k port gp =>
    match (s.segs id)[k]? with
    | none => none
    | some seg =>
      if seg.stage = .snooping ∧ port ∈ seg.ports ∧ ((s.tr id).isDVM → gp.genattr.datatransfer = false) then
        let d := SnoopTransaction.portDone ls (s.tr id) seg.st gp
        let seg' : Seg N := ⟨d.2, seg.ports.erase port, if d.2.snoopDone then .snooped else .snooping⟩
        let s₁ := (s.setTr id d.1).setSegs id ((s.segs id).set k seg')
        some (if capturesDirty (s.tr id) gp then { s₁ with trace := .capture id seg.st.addr :: s.trace } else s₁)
      else none
  | .snoopDone id k =>
    match (s.segs id)[k]? with
    | none => none
    | some seg =>
      if seg.stage = .snooped then
        let seg' := { seg with stage := if seg.st.execDsGp then .downstream else .finalizing }
        some (s.setSegs id ((s.segs id).set k seg'))
      else none
  | .dsGp id k =>
    match (s.segs id)[k]? with
    | none => none
    | some seg =>
      if seg.stage = .downstream then
        if seg.st.dsRead then
          -- `ds_gp_done`: a `ReadOnce` gets its data from downstream
          let st := { seg.st with dsData := readFrom s.mem seg.st.addr, dsResponse := .ok }
          let tr := s.tr id
          let tr' := { tr with data := copyData st.addr st.dsData ls.size tr.address tr.data tr.dataLength }
          some ((s.setTr id tr').setSegs id ((s.segs id).set k ⟨st, seg.ports, .finalizing⟩))
        else
          let s₁ := s.setSegs id ((s.segs id).set k { seg with stage := .finalizing })
          some { s₁ with
            mem := writeAt s.mem seg.st.addr ls.size seg.st.dsData
            trace := .writeback id seg.st.addr :: s.trace }
      else none
  | .finalize id k =>
    match (s.segs id)[k]? with
    | none => none
    | some seg => if seg.stage = .finalizing then some (s.finalizeSnoopTr id k seg.st) else none
  | .downstream id =>
    if s.phase id = .downstream then
      let d := Ace.downstream s.mem (s.tr id)
      let s₁ := { (s.setTr id d.2).setPhase id .notified with mem := d.1 }
      some (if (s.tr id).isWriteUnique || (s.tr id).isWriteLineUnique then { s₁ with trace := .write id (s.tr id) :: s.trace }
        else s₁)
    else none
  | .complete id =>
    if s.phase id = .notified then
      let s₁ := { s.setPhase id .returned with ongoing := s.ongoing.filter (· ≠ id), trace := .complete id :: s.trace }
      let s₂ := restartOverlapping (s.tr id) s.overlapping s₁
      if s₂.engine.length ≤ fifoSize then some s₂ else none
    else none

/-- At the start there is no transaction. -/
def init (tr : ℕ → Transaction) (mem : Addr → Byte) : Orderer N where
  tr := tr
  phase := fun _ => .absent
  segs := fun _ => []
  next := 0
  blocked := []
  ongoing := []
  overlapping := []
  engine := []
  mem := mem
  trace := []

end Orderer

end LibSystemCTLM.Ace
