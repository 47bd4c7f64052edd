import LibSystemCTLM.Foundation.Runs
import LibSystemCTLM.Tlm.Payload
import Mathlib.Logic.Function.Basic

/-!
# Waiting for responses on a remote port

A device that has sent a request takes a slot (`response_wait`), and the response to come is looked up by its
ID and copied into it (`rp_process`). The thread of the adaptor may wait itself: the request it handles calls
a device in turn. It then processes packets recursively, so that its waits are nested. Any other thread waits
for the event of its slot (`remote-port-tlm.cc`).

## The model

The stack of the adaptor's thread is a list with the innermost frame first: a wait, whose `rp_process` reads
the next packet or has returned, or a request that is handled by the `rp_process` below it. Under an empty
stack there is the `rp_process` of `process`. Other threads run between any two steps.

Every request has a number of its own (`n`), which no code looks at; with it one sees which response answers
which request. A response to a posted request, or one that is acknowledged in no other way, answers none.

## Honest scope

The devices that wait are registered, and the peer answers a request at most once, with its ID and device.
A failed assertion ends the simulation (`aborted`).
-/

namespace LibSystemCTLM.RemotePort.Slots

open Foundation Tlm

/-- `RP_MAX_OUTSTANDING_TRANSACTIONS`. -/
def maxOutstandingTransactions : ℕ := 256

/-- A request that the peer has not answered. -/
structure Request where
  n : ℕ
  dev : ℕ
  id : BitVec 32

/-- A response packet. -/
structure Response where
  n : ℕ := 0
  dev : ℕ := 0
  id : BitVec 32 := 0
  body : List Byte := []

/-- What the peer sends. -/
inductive Packet where
  | response (r : Response)
  /-- A response with `RP_PKT_FLAGS_posted`. -/
  | posted
  | request

/-- A response slot. -/
@[ext]
structure Slot where
  pkt : Response := {}
  id : BitVec 32 := 0
  used : Bool := false
  valid : Bool := false

/-- A call of `response_wait`, with the slot it has. -/
structure Waiter where
  n : ℕ
  dev : ℕ
  id : BitVec 32
  slot : ℕ

/-- A frame of the adaptor's thread. -/
inductive Frame where
  | handling
  | waiting (w : Waiter) (returned : Bool)

/-- The slots of the devices, and what is under way. -/
structure Port where
  resp : ℕ → ℕ → Slot := fun _ _ => {}
  rpPktId : BitVec 32 := 0
  issued : ℕ := 0
  /-- Requests at the peer. -/
  peer : List Request := []
  /-- Packets in the socket. -/
  rx : List Packet := []
  /-- All responses that the peer has sent. -/
  answered : List Response := []
  /-- The responses that waiters returned with. -/
  delivered : List (Waiter × Response) := []

namespace Port

variable (p : Port)

/-- A slot is written. -/
def setSlot (dev i : ℕ) (s : Slot) : Port := { p with resp := Function.update p.resp dev (Function.update (p.resp dev) i s) }

/-- `response_lookup`. -/
def responseLookup (dev : ℕ) (id : BitVec 32) : Option ℕ := (List.range maxOutstandingTransactions).find? fun i => (p.resp dev i).used && (p.resp dev i).id == id

/-- The search for a free slot in `response_wait`. -/
def freeSlot (dev : ℕ) : Option ℕ := (List.range maxOutstandingTransactions).find? fun i => !(p.resp dev i).used

/-- A request has been sent, and a slot has its ID. -/
def taken (dev i : ℕ) : Port :=
  { p.setSlot dev i { p.resp dev i with id := p.rpPktId, used := true } with
    rpPktId := p.rpPktId + 1
    issued := p.issued + 1
    peer := p.peer ++ [⟨p.issued, dev, p.rpPktId⟩] }

/-- A request is sent, and `response_wait` takes a slot for it. -/
def call (dev : ℕ) : Option (Port × Waiter) := (p.freeSlot dev).map fun i => (p.taken dev i, ⟨p.issued, dev, p.rpPktId, i⟩)

/-- An ID is used for a request that nothing waits for. -/
def post : Port := { p with rpPktId := p.rpPktId + 1 }

/-- The peer answers one of the requests it has. -/
def answer (k : ℕ) (body : List Byte) : Option Port :=
  p.peer[k]?.map fun q =>
    { p with
      peer := p.peer.eraseIdx k
      rx := p.rx ++ [.response ⟨q.n, q.dev, q.id, body⟩]
      answered := p.answered ++ [⟨q.n, q.dev, q.id, body⟩] }

/-- The packets in the socket. -/
def setRx (rx : List Packet) : Port := { p with rx := rx }

/-- `rp_process` has a response: it goes into a slot. -/
def store (r : Response) (i : ℕ) : Port := p.setSlot r.dev i { p.resp r.dev i with pkt := r, valid := true }

/-- The waiter returns with the packet of its slot, and `response_done` frees it. -/
def take (w : Waiter) : Port :=
  { p.setSlot w.dev w.slot { p.resp w.dev w.slot with valid := false, used := false } with
    delivered := p.delivered ++ [(w, (p.resp w.dev w.slot).pkt)] }

/-- `resp[i].valid` of the waiter's slot. -/
def valid (w : Waiter) : Bool := (p.resp w.dev w.slot).valid

/-- The assertion behind `response_wait`. -/
def idMatches (w : Waiter) : Bool := (p.resp w.dev w.slot).pkt.id == w.id

end Port

structure State where
  port : Port := {}
  stack : List Frame := []
  /-- Other threads that wait, and whether the event of their slot came. -/
  blocked : List (Waiter × Bool) := []
  aborted : Bool := false

namespace State

variable (s : State)

def abort : State := { s with aborted := true }

/-- A thread other than the adaptor's calls a device. -/
def call (dev : ℕ) : State :=
  match s.port.call dev with
  | none => s.abort
  | some (p, w) => { s with port := p, blocked := s.blocked ++ [(w, false)] }

/-- The request that the adaptor's thread handles calls a device. -/
def nestedCall (dev : ℕ) : Option State :=
  match s.stack with
  | .handling :: _ =>
    match s.port.call dev with
    | none => some s.abort
    | some (p, w) => some { s with port := p, stack := .waiting w false :: s.stack }
  | _ => none

/-- `rp_process` reads. -/
def reading : Bool :=
  match s.stack with
  | [] | .waiting _ false :: _ => true
  | _ => false

/-- `rp_process` returns. -/
def returnStack : List Frame → List Frame
  | .waiting w _ :: fs => .waiting w true :: fs
  | fs => fs

/-- `ev.notify` of a slot. -/
def notify (dev i : ℕ) : List (Waiter × Bool) :=
  s.blocked.map fun b => (b.1, b.2 || (decide (b.1.dev = dev) && decide (b.1.slot = i)))

/-- `rp_process` reads the next packet. -/
def receive : Option State :=
  match s.reading, s.port.rx with
  | true, .request :: rx => some { s with port := s.port.setRx rx, stack := .handling :: s.stack }
  | true, .posted :: rx => some { s with port := s.port.setRx rx, stack := returnStack s.stack }
  | true, .response r :: rx =>
    match s.port.responseLookup r.dev r.id with
    | some i => some { s with port := (s.port.setRx rx).store r i, stack := returnStack s.stack, blocked := s.notify r.dev i }
    | none => some s.abort
  | _, _ => none

/-- The request has been handled, and `rp_process` goes on reading. -/
def finish : Option State :=
  match s.stack with
  | .handling :: fs => some { s with stack := fs }
  | _ => none

/-- The loop of `response_wait` after `rp_process`. -/
def check : Option State :=
  match s.stack with
  | .waiting w true :: fs =>
    if s.port.valid w = true then
      if s.port.idMatches w = true then some { s with port := s.port.take w, stack := fs } else some s.abort
    else some { s with stack := .waiting w false :: fs }
  | _ => none

/-- The loop of `response_wait` after the event, in another thread. -/
def wake (k : ℕ) : Option State :=
  match s.blocked[k]? with
  | some (w, true) =>
    if s.port.valid w = true then
      if s.port.idMatches w = true then some { s with port := s.port.take w, blocked := s.blocked.eraseIdx k } else some s.abort
    else some { s with blocked := s.blocked.set k (w, false) }
  | _ => none

end State

inductive Act where
  | call (dev : ℕ)
  | nestedCall (dev : ℕ)
  | post
  | answer (k : ℕ) (body : List Byte)
  | answerPosted
  | request
  | receive
  | finish
  | check
  | wake (k : ℕ)

/-- A step, if the simulation runs. -/
def step (s : State) (a : Act) : Option State :=
  if s.aborted = true then none
  else
    match a with
    | .call dev => some (s.call dev)
    | .nestedCall dev => s.nestedCall dev
    | .post => some { s with port := s.port.post }
    | .answer k body => (s.port.answer k body).map fun p => { s with port := p }
    | .answerPosted => some { s with port := s.port.setRx (s.port.rx ++ [.posted]) }
    | .request => some { s with port := s.port.setRx (s.port.rx ++ [.request]) }
    | .receive => s.receive
    | .finish => s.finish
    | .check => s.check
    | .wake k => s.wake k

end LibSystemCTLM.RemotePort.Slots
