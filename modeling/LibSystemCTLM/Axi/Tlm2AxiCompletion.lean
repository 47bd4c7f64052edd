import LibSystemCTLM.Axi.Axi2TlmOrder

/-!
# Completion of the transactions of `tlm2axi_bridge`

Which caller of `b_transport` is told what, and when (`tlm2axi-bridge.h`): the fifos and the vectors in
which a transaction waits, the threads that have it in hand, and `abort`, by which a reset ends it.

## The model

`Rd` and `Wr` are the two sides of the bridge, which share nothing but `resetn`. What happens between two
waits of a SystemC thread is one step. `reset` is the falling edge of `resetn` together with what the
`reset` thread does; what the other threads do about it are steps of their own while `resetn` is low.

Each side has an AXI slave next to it. It may answer the transactions of an ID only in order, and a write
not before it has the address and the data; otherwise it answers as it likes, and may interleave the
beats of read bursts of different IDs. `given` lists what it has answered.

`accepted` lists what has been put into a fifo for the bridge, `atReset` what was in flight at the last
reset; no step reads them. A transaction's `serial` is the number of the call, in place of the pointer.

## Honest scope

A reset lasts until the threads that look at it have seen it, one rising edge of the clock, and resets the
slave too. A read burst has as many beats as the loop over `len` takes. The data, and the DVM responses a
read address may wait for, are left out.
-/

namespace LibSystemCTLM.Tlm2Axi.Completion

open Axi (Protocol fifoSize)

/-- The version, and the width of the ID signals. -/
structure Params where
  proto : Protocol
  idWidth : ℕ

/-- A transaction: of a read its `arlen`, of a write whether it `hasData`. -/
structure Tx where
  serial : ℕ
  axid : BitVec 32
  arlen : ℕ := 0
  hasData : Bool := true
  deriving DecidableEq

/-- `tlm_response_status`, as far as it is set. -/
inductive Status where
  | ok | addressError | genericError
  deriving DecidableEq

/-- `AXI_SLVERR`, `AXI_DECERR`. -/
def isError (resp : BitVec 2) : Bool := decide (resp = 2) || decide (resp = 3)

/-- `tlm_gp_set_axi_resp`. -/
def Status.ofResp (resp : BitVec 2) : Status := if resp = 3 then .addressError else if resp = 2 then .genericError else .ok

/-- A notified `DoneEvent`, with the response status the caller finds. -/
structure Done where
  tr : Tx
  status : Status
  aborted : Bool := false
  deriving DecidableEq

/-- `abort`. -/
def abort (tr : Tx) : Done := { tr := tr, status := .genericError, aborted := true }

/-- The ID as it is on the bus. -/
def busId (p : Params) (axid : BitVec 32) : BitVec 32 := BitVec.ofNat 32 (axid.toNat % 2 ^ p.idWidth)

/-- `LookupAxID`: the first transaction of the ID, and the vector without it. -/
def lookupAxID (vec : List Tx) (id : BitVec 32) : Option (Tx × List Tx) :=
  (vec.find? fun t => decide (t.axid = id)).map fun t => (t, vec.eraseP fun t => decide (t.axid = id))

/-! ### Reads -/

/-- Where `read_address_phase` stands. -/
inductive RdAddrPc where
  | idle
  /-- It drives the address. -/
  | valid (tr : Tx)
  /-- It is in `wait_for_reset_release`. -/
  | held
  deriving DecidableEq

/-- Where `read_resp_phase` stands. -/
inductive RdRespPc where
  | idle
  /-- It has a transaction, of which this many beats are left. -/
  | burst (tr : Tx) (left : ℕ)
  /-- It signals `rack`. -/
  | ack (tr : Tx) (status : Status)
  | held
  deriving DecidableEq

/-- A read that the slave has not answered: the beats that are left, and those it has given. -/
structure Owed where
  tr : Tx
  left : ℕ
  sent : List (BitVec 2) := []
  deriving DecidableEq

/-- The read side. -/
structure Rd where
  /-- The callers blocked in `rdTransFifo.write`. -/
  blocked : List Tx := []
  transFifo : List Tx := []
  addr : RdAddrPc := .idle
  responses : List Tx := []
  resp : RdRespPc := .idle
  done : List Done := []
  next : ℕ := 0
  owed : List Owed := []
  given : List (Tx × List (BitVec 2)) := []
  accepted : List Tx := []
  atReset : List Tx := []
  deriving DecidableEq

/-- What happens next on the read side. -/
inductive RdAction where
  | call (axid : BitVec 32) (arlen : ℕ)
  | unblock (k : ℕ)
  | take | arready
  | beat (id : BitVec 32) (rresp : BitVec 2)
  | ack
  | abortAddr | abortResp
  deriving DecidableEq

namespace Rd

variable (p : Params) (resetn : Bool) (s : Rd)

/-- What the address thread has in hand. -/
def inAddr : Option Tx :=
  match s.addr with
  | .valid tr => some tr
  | _ => none

/-- What the response thread has in hand. -/
def inResp : Option Tx :=
  match s.resp with
  | .burst tr _ | .ack tr _ => some tr
  | _ => none

/-- What has been accepted and not completed. -/
def inFlight : List Tx := s.transFifo ++ s.inAddr.toList ++ s.responses ++ s.inResp.toList

/-- A write to `rdTransFifo` that finds room. -/
def accept (tr : Tx) : Rd := { s with transFifo := s.transFifo ++ [tr], accepted := s.accepted ++ [tr] }

/-- The slave's oldest read of an ID. -/
def oldest (id : BitVec 32) : Option Owed := s.owed.find? fun e => decide (busId p e.tr.axid = id)

/-- The slave gives a beat of a read. -/
def give (e : Owed) (rresp : BitVec 2) : Rd :=
  if e.left ≤ 1 then
    { s with owed := s.owed.filter fun e' => decide (e'.tr ≠ e.tr), given := s.given ++ [(e.tr, e.sent ++ [rresp])] }
  else
    { s with owed := s.owed.map fun e' => if e'.tr = e.tr then { e' with left := e'.left - 1, sent := e'.sent ++ [rresp] } else e' }

/-- After the last beat: the status is that of its `rresp`. -/
def finish (tr : Tx) (rresp : BitVec 2) : Rd :=
  if p.proto = .ace then { s with resp := .ack tr (.ofResp rresp) }
  else { s with resp := .idle, done := s.done ++ [{ tr := tr, status := .ofResp rresp }] }

/-- A beat of a transaction of which this many are left. -/
def takeBeat (tr : Tx) (left : ℕ) (rresp : BitVec 2) : Rd :=
  if left ≤ 1 then s.finish p tr rresp else { s with resp := .burst tr (left - 1) }

/-- One step of the read side. -/
def step (s : Rd) : RdAction → Option Rd
  | .call axid arlen =>
    let tr : Tx := { serial := s.next, axid := axid, arlen := arlen }
    let s₁ := { s with next := s.next + 1 }
    if resetn = false then none
    else if s.transFifo.length < fifoSize then some (s₁.accept tr)
    else some { s₁ with blocked := s.blocked ++ [tr] }
  | .unblock k =>
    match s.blocked[k]? with
    | some tr => if s.transFifo.length < fifoSize then some ({ s with blocked := s.blocked.eraseIdx k }.accept tr) else none
    | none => none
  | .take =>
    match s.addr, s.transFifo with
    | .idle, tr :: rest =>
      if resetn = true then some { s with addr := .valid tr, transFifo := rest }
      else some { s with addr := .held, transFifo := rest, done := s.done ++ [abort tr] }
    | _, _ => none
  | .arready =>
    match s.addr with
    | .valid tr =>
      if resetn = true then
        some { s with addr := .idle, responses := s.responses ++ [tr], owed := s.owed ++ [{ tr := tr, left := tr.arlen + 1 }] }
      else none
    | _ => none
  | .beat id rresp =>
    match s.oldest p id with
    | none => none
    | some e =>
      if resetn = false then none
      else
        let s₁ := s.give e rresp
        match s.resp with
        | .idle =>
          match lookupAxID s.responses id with
          | some (tr, rest) => some ({ s₁ with responses := rest }.takeBeat p tr (tr.arlen + 1) rresp)
          -- an unexpected transaction ID is an error
          | none => none
        -- whose beat it is does not matter any more
        | .burst tr left => some (s₁.takeBeat p tr left rresp)
        | .ack _ _ | .held => none
  | .ack =>
    match s.resp with
    | .ack tr status => if resetn = true then some { s with resp := .idle, done := s.done ++ [{ tr := tr, status := status }] } else none
    | _ => none
  | .abortAddr =>
    match s.addr with
    | .valid tr => if resetn = false then some { s with addr := .held, done := s.done ++ [abort tr] } else none
    | _ => none
  | .abortResp =>
    if resetn = true then none
    else
      match s.resp with
      | .idle => some { s with resp := .held }
      | .burst tr _ | .ack tr _ => some { s with resp := .held, done := s.done ++ [abort tr] }
      | .held => none

/-- What the `reset` thread does. -/
def reset : Rd :=
  { s with
    transFifo := []
    responses := []
    done := s.done ++ (s.transFifo ++ s.responses).map abort
    owed := []
    atReset := s.inFlight }

/-- The threads that look at a reset have seen it. -/
def settled : Bool := (decide (s.addr = .held) || decide (s.addr = .idle) && s.transFifo.isEmpty) && decide (s.resp = .held)

/-- Reset is released. -/
def release : Rd := { s with addr := .idle, resp := .idle }

/-- The transaction whose beats the response thread takes. -/
def inBurst : Option Tx :=
  match s.resp with
  | .burst tr _ => some tr
  | _ => none

/-- What is asked of a step: an ID fits on the bus; the beats of a burst follow each other, and an error in
one of them is still there in the last. -/
def StepOk (s : Rd) : RdAction → Prop
  | .call axid _ => axid.toNat < 2 ^ p.idWidth
  | .beat id rresp =>
    ∀ e, s.oldest p id = some e →
      (∀ tr, s.inBurst = some tr → e.tr = tr) ∧ (e.left ≤ 1 → (∃ r ∈ e.sent, isError r = true) → isError rresp = true)
  | _ => True

instance (s : Rd) : (a : RdAction) → Decidable (s.StepOk p a)
  | .call axid _ => inferInstanceAs (Decidable (axid.toNat < 2 ^ p.idWidth))
  | .beat id rresp =>
    decidable_of_iff (∀ e ∈ (s.oldest p id).toList, (∀ tr ∈ s.inBurst.toList, e.tr = tr) ∧
        (e.left ≤ 1 → (∃ r ∈ e.sent, isError r = true) → isError rresp = true)) (by
      simp only [StepOk, Option.mem_toList])
  | .unblock _ | .take | .arready | .ack | .abortAddr | .abortResp => isTrue trivial

/-- Each transaction is completed once, and told the truth. -/
structure Completes : Prop where
  /-- Each accepted transaction is in flight or has been completed, and not twice. -/
  once : (s.accepted.map Tx.serial).Nodup ∧ s.accepted.Perm (s.inFlight ++ s.done.map Done.tr)
  /-- What is aborted is told of an error, and what is answered of an error in any of its own beats. -/
  status : ∀ d ∈ s.done,
    if d.aborted = true then d.status = .genericError
    else ∃ beats, (d.tr, beats) ∈ s.given ∧ beats.length = d.tr.arlen + 1 ∧ (d.status = .ok ↔ ∀ r ∈ beats, isError r = false)
  /-- What was in flight at a reset has been aborted by the time it is released. -/
  reset : resetn = true ∨ s.settled = true → ∀ tr ∈ s.atReset, ∃ d ∈ s.done, d.tr = tr ∧ d.aborted = true
  /-- What waits for a response is owed one. -/
  owed : resetn = true → ∀ tr ∈ s.responses, ∃ e ∈ s.owed, e.tr = tr
  /-- The bridge takes each beat that the slave may give. -/
  taken : resetn = true → ∀ id rresp, (s.oldest p id).isSome = true →
    (s.resp = .idle ∨ ∃ tr left, s.resp = .burst tr left) → (s.step p resetn (.beat id rresp)).isSome = true

end Rd

/-! ### Writes -/

/-- Where `write_address_phase` stands. -/
inductive WrAddrPc where
  | idle
  /-- It drives the address and is blocked in `wrDataFifo.write`. -/
  | pushing (tr : Tx)
  /-- It drives the address. -/
  | valid (tr : Tx)
  | held
  deriving DecidableEq

/-- Where `write_data_phase` stands. -/
inductive WrDataPc where
  | idle
  /-- It drives the beats. -/
  | beats (tr : Tx)
  | held
  deriving DecidableEq

/-- Where `write_resp_phase` stands. -/
inductive WrRespPc where
  | idle
  /-- It signals `wack`. -/
  | ack (tr : Tx) (status : Status)
  | held
  deriving DecidableEq

/-- The write side. The slave has taken `addrs` and not answered them, and it has the data of `sent`. -/
structure Wr where
  /-- The callers blocked in `wrTransFifo.write`. -/
  blocked : List Tx := []
  transFifo : List Tx := []
  addr : WrAddrPc := .idle
  dataFifo : List Tx := []
  data : WrDataPc := .idle
  responses : List Tx := []
  resp : WrRespPc := .idle
  done : List Done := []
  next : ℕ := 0
  addrs : List Tx := []
  sent : List Tx := []
  given : List (Tx × BitVec 2) := []
  accepted : List Tx := []
  atReset : List Tx := []
  deriving DecidableEq

/-- What happens next on the write side. -/
inductive WrAction where
  | call (axid : BitVec 32) (hasData : Bool)
  | unblock (k : ℕ)
  | take | push | awready | takeData | wlast
  | bresp (id : BitVec 32) (resp : BitVec 2)
  | ack
  | abortAddr | abortData | abortResp
  deriving DecidableEq

namespace Wr

variable (p : Params) (resetn : Bool) (s : Wr)

/-- What the address thread has in hand. -/
def inAddr : Option Tx :=
  match s.addr with
  | .pushing tr => some tr
  | _ => none

/-- What the data thread has in hand. -/
def inData : Option Tx :=
  match s.data with
  | .beats tr => some tr
  | _ => none

/-- What the response thread has in hand. -/
def inResp : Option Tx :=
  match s.resp with
  | .ack tr _ => some tr
  | _ => none

/-- What has been accepted and not completed. -/
def inFlight : List Tx := s.transFifo ++ s.inAddr.toList ++ s.dataFifo ++ s.inData.toList ++ s.responses ++ s.inResp.toList

/-- A write to `wrTransFifo` that finds room. -/
def accept (tr : Tx) : Wr := { s with transFifo := s.transFifo ++ [tr], accepted := s.accepted ++ [tr] }

/-- The slave's oldest write of an ID. -/
def oldest (id : BitVec 32) : Option Tx := s.addrs.find? fun t => decide (busId p t.axid = id)

/-- One step of the write side. -/
def step (s : Wr) : WrAction → Option Wr
  | .call axid hasData =>
    let tr : Tx := { serial := s.next, axid := axid, hasData := hasData }
    let s₁ := { s with next := s.next + 1 }
    if resetn = false then none
    else if s.transFifo.length < fifoSize then some (s₁.accept tr)
    else some { s₁ with blocked := s.blocked ++ [tr] }
  | .unblock k =>
    match s.blocked[k]? with
    | some tr => if s.transFifo.length < fifoSize then some ({ s with blocked := s.blocked.eraseIdx k }.accept tr) else none
    | none => none
  | .take =>
    match s.addr, s.transFifo with
    | .idle, tr :: rest =>
      if resetn = false then some { s with addr := .held, transFifo := rest, done := s.done ++ [abort tr] }
      else if s.dataFifo.length < fifoSize then some { s with addr := .valid tr, transFifo := rest, dataFifo := s.dataFifo ++ [tr] }
      else some { s with addr := .pushing tr, transFifo := rest }
    | _, _ => none
  | .push =>
    match s.addr with
    | .pushing tr => if s.dataFifo.length < fifoSize then some { s with addr := .valid tr, dataFifo := s.dataFifo ++ [tr] } else none
    | _ => none
  | .awready =>
    match s.addr with
    | .valid tr => if resetn = true then some { s with addr := .idle, addrs := s.addrs ++ [tr] } else none
    -- the slave sees `awvalid`, and the thread does not see `awready`
    | .pushing tr => if resetn = true then some { s with addrs := s.addrs ++ [tr] } else none
    | _ => none
  | .takeData =>
    match s.data, s.dataFifo with
    | .idle, tr :: rest =>
      if resetn = false then some { s with data := .held, dataFifo := rest, done := s.done ++ [abort tr] }
      else if tr.hasData = true then some { s with data := .beats tr, dataFifo := rest }
      else some { s with dataFifo := rest, responses := s.responses ++ [tr] }
    | _, _ => none
  | .wlast =>
    match s.data with
    | .beats tr =>
      if resetn = true then some { s with data := .idle, sent := s.sent ++ [tr], responses := s.responses ++ [tr] } else none
    | _ => none
  | .bresp id resp =>
    match s.oldest p id, s.resp with
    | some tr, .idle =>
      if resetn = false ∨ tr.hasData = true ∧ tr ∉ s.sent then none
      else
        let s₁ := { s with addrs := s.addrs.filter fun t => decide (t ≠ tr), given := s.given ++ [(tr, resp)] }
        match lookupAxID s.responses id with
        | some (t, rest) =>
          if p.proto = .ace then some { s₁ with responses := rest, resp := .ack t (.ofResp resp) }
          else some { s₁ with responses := rest, done := s.done ++ [{ tr := t, status := .ofResp resp }] }
        -- an unexpected transaction ID is an error
        | none => none
    | _, _ => none
  | .ack =>
    match s.resp with
    | .ack tr status => if resetn = true then some { s with resp := .idle, done := s.done ++ [{ tr := tr, status := status }] } else none
    | _ => none
  | .abortAddr =>
    match s.addr with
    -- the transaction has been passed on
    | .valid _ => if resetn = false then some { s with addr := .held } else none
    | _ => none
  | .abortData =>
    match s.data with
    | .beats tr => if resetn = false then some { s with data := .held, done := s.done ++ [abort tr] } else none
    | _ => none
  | .abortResp =>
    if resetn = true then none
    else
      match s.resp with
      | .idle => some { s with resp := .held }
      | .ack tr _ => some { s with resp := .held, done := s.done ++ [abort tr] }
      | .held => none

/-- What the `reset` thread does. -/
def reset : Wr :=
  { s with
    transFifo := []
    dataFifo := []
    responses := []
    done := s.done ++ (s.transFifo ++ s.dataFifo ++ s.responses).map abort
    addrs := []
    sent := []
    atReset := s.inFlight }

/-- The threads that look at a reset have seen it. -/
def settled : Bool :=
  (decide (s.addr = .held) || decide (s.addr = .idle) && s.transFifo.isEmpty) &&
    (decide (s.data = .held) || decide (s.data = .idle) && s.dataFifo.isEmpty) && decide (s.resp = .held)

/-- Reset is released. -/
def release : Wr := { s with addr := .idle, data := .idle, resp := .idle }

/-- What is asked of a step: an ID fits on the bus; no address is taken while its thread is blocked in
`wrDataFifo.write`; a write without data is answered only when it has come to `wrResponses`. -/
def StepOk (s : Wr) : WrAction → Prop
  | .call axid _ => axid.toNat < 2 ^ p.idWidth
  | .awready => s.inAddr = none
  | .bresp id _ => ∀ tr, s.oldest p id = some tr → tr.hasData = false → tr ∈ s.responses
  | _ => True

instance (s : Wr) : (a : WrAction) → Decidable (s.StepOk p a)
  | .call axid _ => inferInstanceAs (Decidable (axid.toNat < 2 ^ p.idWidth))
  | .awready => inferInstanceAs (Decidable (s.inAddr = none))
  | .bresp id _ =>
    decidable_of_iff (∀ tr ∈ (s.oldest p id).toList, tr.hasData = false → tr ∈ s.responses)
      ⟨fun h tr ht => h tr (Option.mem_toList.2 ht), fun h tr ht => h tr (Option.mem_toList.1 ht)⟩
  | .unblock _ | .take | .push | .takeData | .wlast | .ack | .abortAddr | .abortData | .abortResp => isTrue trivial

/-- Each transaction is completed once, and told the truth. -/
structure Completes : Prop where
  /-- Each accepted transaction is in flight or has been completed, and not twice. -/
  once : (s.accepted.map Tx.serial).Nodup ∧ s.accepted.Perm (s.inFlight ++ s.done.map Done.tr)
  /-- What is aborted is told of an error, and what is answered has the status of its own response. -/
  status : ∀ d ∈ s.done,
    if d.aborted = true then d.status = .genericError
    else ∃ resp, (d.tr, resp) ∈ s.given ∧ d.status = .ofResp resp
  /-- What was in flight at a reset has been aborted by the time it is released. -/
  reset : resetn = true ∨ s.settled = true → ∀ tr ∈ s.atReset, ∃ d ∈ s.done, d.tr = tr ∧ d.aborted = true
  /-- What waits for a response has its address with the slave, or on the way to it. -/
  owed : resetn = true → ∀ tr ∈ s.responses, tr ∈ s.addrs ∨ s.addr = .valid tr
  /-- The bridge takes each response that the slave may give. -/
  taken : resetn = true → ∀ id resp tr, s.oldest p id = some tr → (tr.hasData = true → tr ∈ s.sent) → s.StepOk p (.bresp id resp) →
    s.resp = .idle → (s.step p resetn (.bresp id resp)).isSome = true

end Wr

/-! ### The bridge -/

/-- Both sides. -/
structure Bridge where
  resetn : Bool := true
  rd : Rd := {}
  wr : Wr := {}
  deriving DecidableEq

/-- What happens next. -/
inductive Action where
  | rd (a : RdAction)
  | wr (a : WrAction)
  | reset | release
  deriving DecidableEq

/-- One step of the bridge. -/
def Bridge.step (p : Params) (s : Bridge) : Action → Option Bridge
  | .rd a => (s.rd.step p s.resetn a).map fun rd => { s with rd := rd }
  | .wr a => (s.wr.step p s.resetn a).map fun wr => { s with wr := wr }
  | .reset => if s.resetn = true then some { resetn := false, rd := s.rd.reset, wr := s.wr.reset } else none
  | .release =>
    if s.resetn = false ∧ s.rd.settled = true ∧ s.wr.settled = true then some { resetn := true, rd := s.rd.release, wr := s.wr.release }
    else none

/-- What is asked of a step; reset is not asserted while a thread is blocked in `wrDataFifo.write`. -/
def StepOk (p : Params) (s : Bridge) : Action → Prop
  | .rd a => s.rd.StepOk p a
  | .wr a => s.wr.StepOk p a
  | .reset => s.wr.inAddr = none
  | .release => True

instance (p : Params) (s : Bridge) : (a : Action) → Decidable (StepOk p s a)
  | .rd a => inferInstanceAs (Decidable (s.rd.StepOk p a))
  | .wr a => inferInstanceAs (Decidable (s.wr.StepOk p a))
  | .reset => inferInstanceAs (Decidable (s.wr.inAddr = none))
  | .release => isTrue trivial

/-- Both sides complete what they have accepted. -/
structure Completes (p : Params) (s : Bridge) : Prop where
  rd : s.rd.Completes p s.resetn
  wr : s.wr.Completes p s.resetn

end LibSystemCTLM.Tlm2Axi.Completion
