import LibSystemCTLM.Foundation.Runs
import LibSystemCTLM.Tlm.Payload

/-!
# `tlm2axis_bridge` and `axis2tlm_bridge`

An AXI stream between two bridges: the one puts the bytes of TLM payloads on the bus, beat by beat
(`tlm2axis-bridge.h`), the other collects them in a buffer of 4 KB and sends it on, when it is full and
when `tlast` is set (`axis2tlm-bridge.h`).

## The model

What happens at a rising edge of the clock is one step: both threads read what the signals were before
it. A payload that comes to the first bridge, an edge of `resetn`, the return of the target's `b_transport`
and the end of the delay it adds are steps between two edges, in any order, so every duration is a run.
`tready` is set but in that delay. A beat is the list of its strobed bytes, which are the first of its lanes.

A payload is its bytes and whether it ends its packet. `sent` lists what came to the first bridge, `out`
what the second sent on.

## Honest scope

Payloads that wait for the bridge's mutex are not in the state: they come when it is free.
-/

namespace LibSystemCTLM.Axis

open Foundation Tlm

/-- `MAX_DATA`. -/
def maxData : ℕ := 4 * 1024

/-- A TLM stream payload. -/
structure Payload where
  data : List Byte
  eop : Bool
  deriving DecidableEq

/-- `tlm2axis_bridge::b_transport`, before it has a payload and with the bytes of it that were put on the bus. -/
inductive Sender where
  | idle
  | sending (p : Payload) (pos : ℕ)

/-- The loop over the lanes of a flit, where a full buffer interrupted it: the flit it takes, with its
`tlast`, the next lane and `last_byte`. -/
structure Loop where
  flit : List Byte
  tlast : Bool
  lane : ℕ
  lastByte : ℕ

/-- `axis_thread`. -/
inductive Receiver where
  /-- At the wait for the next edge. -/
  | ready
  /-- In `wait_for_reset_release`. -/
  | inReset
  /-- In the target's `b_transport`. -/
  | calling (loop : Option Loop)
  /-- In `wait(delay)`. -/
  | delaying (loop : Option Loop)

structure State where
  resetn : Bool := true
  tvalid : Bool := false
  tdata : List Byte := []
  tlast : Bool := false
  tx : Sender := .idle
  rx : Receiver := .ready
  /-- The bytes in `data`. -/
  buf : List Byte := []
  sent : List Payload := []
  out : List Payload := []

namespace State

variable (bus : ℕ) (s : State)

/-- `tready`. -/
def tready : Bool :=
  match s.rx with
  | .delaying _ => false
  | _ => true

/-! ### The sender -/

/-- The next beat. `tlast` is set and never cleared here. -/
def nextBeat (p : Payload) (pos : ℕ) : State :=
  let beat := (p.data.drop pos).take bus
  { s with
    tvalid := true
    tdata := beat
    tlast := if pos + beat.length = p.data.length ∧ p.eop = true then true else s.tlast
    tx := .sending p (pos + beat.length) }

/-- A payload comes. -/
def send (p : Payload) : Option State :=
  match s.tx with
  | .idle => some ({ s with sent := s.sent ++ [p] }.nextBeat bus p 0)
  | .sending _ _ => none

/-- After `wait_abort_on_reset`. -/
def afterBeat (p : Payload) (pos : ℕ) : State :=
  if s.resetn = false then { s with tx := .idle }
  else if pos < p.data.length then s.nextBeat bus p pos
  else { s with tvalid := false, tlast := false, tx := .idle }

/-! ### The receiver -/

/-- `get_last_byte`. -/
def getLastByte (beat : List Byte) : ℕ := beat.length - 1

/-- The loop over the lanes from one on, as far as the next `run_tlm`: the buffer, and if there is one, whether
`eop` is set and where the loop goes on. -/
def lanes (tlast : Bool) (lastByte : ℕ) : List Byte → ℕ → List Byte → List Byte × Option (Bool × Option ℕ)
  | [], _, buf => if tlast = true ∧ 0 < buf.length then (buf, some (true, none)) else (buf, none)
  | b :: l, i, buf =>
    if (buf ++ [b]).length = maxData then (buf ++ [b], some (tlast && decide (i = lastByte), some (i + 1)))
    else lanes tlast lastByte l (i + 1) (buf ++ [b])

/-- The lanes of the bus from one on. -/
def takeFlit (lane lastByte : ℕ) : State :=
  match lanes s.tlast lastByte (s.tdata.drop lane) lane s.buf with
  | (buf, none) => { s with buf := buf, rx := .ready }
  | (buf, some (eop, next)) =>
    { s with
      out := s.out ++ [⟨buf, eop⟩]
      buf := []
      rx := .calling (next.map fun i => ⟨s.tdata, s.tlast, i, lastByte⟩) }

/-- `axis_thread` at an edge. -/
def receive : State :=
  match s.rx with
  | .ready => if s.resetn = false then { s with rx := .inReset } else if s.tvalid = true then s.takeFlit 0 (getLastByte s.tdata) else s
  | .inReset => if s.resetn = false then s else { s with rx := .ready }
  | .calling _ | .delaying _ => s

/-! ### Steps -/

/-- The sender at an edge, which still sees the signals as they were. -/
def transmit (s' : State) : State :=
  match s.tx with
  | .idle => s'
  | .sending p pos => if s.tready = true ∨ s.resetn = false then s'.afterBeat bus p pos else s'

def edge : State := s.transmit bus s.receive

/-- `resetn` goes low: a thread that waits for it sees it at once. -/
def assertReset : Option State :=
  if s.resetn = true then
    let rx := match s.rx with
      | .ready => .inReset
      | rx => rx
    some { s with resetn := false, tx := .idle, rx := rx }
  else none

def releaseReset : Option State := if s.resetn = false then some { s with resetn := true } else none

/-- The target's `b_transport` returns. -/
def targetReturns : Option State :=
  match s.rx with
  | .calling loop => some { s with rx := .delaying loop }
  | _ => none

/-- The delay is over, and the loop goes on with the signals as they are. -/
def delayEnds : Option State :=
  match s.rx with
  | .delaying none => some { s with rx := .ready }
  | .delaying (some loop) => some (s.takeFlit loop.lane loop.lastByte)
  | _ => none

end State

inductive Act where
  | send (p : Payload)
  | edge
  | assertReset
  | releaseReset
  | targetReturns
  | delayEnds

/-- A step on a bus of so many bytes. -/
def step (bus : ℕ) (s : State) : Act → Option State
  | .send p => s.send bus p
  | .edge => some (s.edge bus)
  | .assertReset => s.assertReset
  | .releaseReset => s.releaseReset
  | .targetReturns => s.targetReturns
  | .delayEnds => s.delayEnds

end LibSystemCTLM.Axis
