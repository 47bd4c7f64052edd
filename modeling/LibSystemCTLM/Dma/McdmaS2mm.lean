import LibSystemCTLM.Dma.McdmaRegs
import LibSystemCTLM.Foundation.Runs
import LibSystemCTLM.Foundation.ByteStrings

/-!
# The S2MM direction of the MCDMA

Packets that come on the streams of `xilinx_mcdma` are stored in the buffers of the descriptors of a ring in
memory (`stream_b_transport` in `mcdma.cc`). Each channel has a ring of its own.

## The model

An access to memory may wait, so a packet is a few steps: the descriptor is loaded, the data is stored, the
descriptor is stored, the current descriptor moves on. Between them come the steps of the other channels,
writes of the registers, and whatever else changes memory, software first of all.

`log` lists the packets that are through, each with what its steps did to memory.

## Honest scope

Descriptors and buffers lie apart, so memory is a map of descriptors, with the words that are used, and a map
of bytes. A channel has one packet at a time, as its initiator waits for the return. The registers software
writes are those that stop and start, enable the channels and extend the rings.
-/

namespace LibSystemCTLM.Mcdma

open Foundation Tlm

/-- `s2mm_bd`. -/
structure S2mmBd where
  next : Addr
  buffer : Addr
  ctrl : BitVec 32
  status : BitVec 32
  deriving DecidableEq

namespace S2mmBd

variable (bd : S2mmBd)

/-- `bdlen`. -/
def bdlen : ℕ := (bd.ctrl &&& 0x3ffffff).toNat

/-- Completed. -/
def completed : Bool := bd.status.getLsbD 31

/-- The length in the status. -/
def transferred : ℕ := (bd.status &&& 0x3ffffff).toNat

/-- The status of a packet: Completed, SOF, EOF and the length. -/
def complete (len : ℕ) : S2mmBd := { bd with status := 1#32 <<< 31 ||| 1#32 <<< 27 ||| 1#32 <<< 26 ||| BitVec.ofNat 32 len }

end S2mmBd

namespace S2mm

/-- `R_S2MM_CH1SR_IDLE_SHIFT`. -/
def idleShift : ℕ := 1

/-- A store to memory, with what was there. -/
inductive Write where
  | data (addr : Addr) (old new : List Byte)
  | desc (addr : Addr) (old new : S2mmBd)
  deriving DecidableEq

/-- It changes nothing. -/
def Write.Same : Write → Prop
  | .data _ old new => old = new
  | .desc _ old new => old = new

/-- Why a packet is dropped. -/
inductive Reason where
  | stopped | disabled | channelStopped | idle | completed
  deriving DecidableEq

/-- What became of a packet: it was taken by the descriptor at `cur`, and the current descriptor is `next` now. -/
inductive Outcome where
  | accepted (cur : Addr) (bd : S2mmBd) (next : Addr)
  | dropped (reason : Reason)
  deriving DecidableEq

/-- A packet that is through. -/
structure Record where
  ch : Ch
  data : List Byte
  outcome : Outcome
  writes : List Write
  /-- The ring of the channel was extended, and it has not run out since. -/
  extended : Bool
  deriving DecidableEq

/-- Where a packet is. -/
inductive Rx where
  | ready
  /-- Behind `s2mm_desc_load`. -/
  | loaded (data : List Byte) (bd : S2mmBd)
  /-- Behind `dma_store`. -/
  | stored (data : List Byte) (bd : S2mmBd)
  /-- Behind `s2mm_desc_store`. -/
  | written (data : List Byte) (bd : S2mmBd)

structure Channel where
  regs : ChannelRegs := {}
  rx : Rx := .ready
  /-- What the packet did to memory. -/
  writes : List Write := []
  extended : Bool := false

structure State where
  ccr : BitVec 32 := 0
  chen : BitVec 32 := 0
  chan : Ch → Channel := fun _ => {}
  desc : Addr → S2mmBd
  mem : Addr → Byte := fun _ => 0
  log : List Record := []

namespace State

variable (s : State) (ch : Ch)

/-- `s2mm_cur`. -/
def cur : Addr := (s.chan ch).regs.cur

/-- The idle bit of a channel. -/
def idle : Bool := (s.chan ch).regs.idle idleShift

def setChan (c : Channel) : State := { s with chan := Function.update s.chan ch c }

/-- The packet is through. -/
def finish (c : Channel) (data : List Byte) (outcome : Outcome) : State :=
  { s.setChan ch { c with rx := .ready, writes := [] } with log := s.log ++ [⟨ch, data, outcome, c.writes, c.extended⟩] }

/-- `goto drop`. -/
def drop (data : List Byte) (reason : Reason) : State := s.finish ch (s.chan ch) data (.dropped reason)

/-- The channel runs out. -/
def runOut (c : Channel) : Channel := { c with regs := c.regs.setIdle idleShift true, extended := false }

/-- A packet comes: the tests, and `s2mm_desc_load`. -/
def deliver (data : List Byte) : Option State :=
  match (s.chan ch).rx with
  | .ready =>
    if data = [] then some s
    else if rs s.ccr = false then some (s.drop ch data .stopped)
    else if s.chen.getLsbD ch = false then some (s.drop ch data .disabled)
    else if rs (s.chan ch).regs.cr = false then some (s.drop ch data .channelStopped)
    else if s.idle ch = true then some (s.drop ch data .idle)
    else some (s.setChan ch { s.chan ch with rx := .loaded data (s.desc (s.cur ch)) })
  | _ => none

/-- `dma_store` of the data, behind the assertion that it fits. -/
def storeData (data : List Byte) (bd : S2mmBd) : Option State :=
  if bd.bdlen < data.length then none
  else
    let w := Write.data bd.buffer (loadBytes s.mem bd.buffer data.length) data
    some { s.setChan ch { s.chan ch with rx := .stored data bd, writes := (s.chan ch).writes ++ [w] } with
      mem := storeBytes s.mem bd.buffer data }

/-- The test of the completed bit, and `s2mm_desc_store`. -/
def storeDesc (data : List Byte) (bd : S2mmBd) : State :=
  if bd.completed = true then s.finish ch (runOut (s.chan ch)) data (.dropped .completed)
  else
    let w := Write.desc (s.cur ch) (s.desc (s.cur ch)) (bd.complete data.length)
    { s.setChan ch { s.chan ch with rx := .written data bd, writes := (s.chan ch).writes ++ [w] } with
      desc := Function.update s.desc (s.cur ch) (bd.complete data.length) }

/-- Behind the store of the descriptor. -/
def advance (data : List Byte) (bd : S2mmBd) : State :=
  let c := if s.cur ch = (s.chan ch).regs.tail then runOut (s.chan ch) else s.chan ch
  s.finish ch { c with regs := (c.regs.setCur bd.next).raiseIrq } data (.accepted (s.cur ch) bd bd.next)

/-- The packet of a channel goes on. -/
def receive : Option State :=
  match (s.chan ch).rx with
  | .ready => none
  | .loaded data bd => s.storeData ch data bd
  | .stored data bd => some (s.storeDesc ch data bd)
  | .written data bd => some (s.advance ch data bd)

end State

/-- The registers that software writes. -/
inductive Reg where
  | ccr | chen
  | cr (ch : Ch)
  | taildescLsb (ch : Ch)
  | taildescMsb (ch : Ch)

/-- `b_transport` of a write. -/
def State.write (s : State) (v : BitVec 32) : Reg → State
  | .ccr => { s with ccr := v }
  | .chen => { s with chen := v }
  | .cr ch => s.setChan ch { s.chan ch with regs := { (s.chan ch).regs with cr := v } }
  | .taildescLsb ch => s.setChan ch { s.chan ch with regs := { (s.chan ch).regs with taildescLsb := v } }
  | .taildescMsb ch =>
    let c := s.chan ch
    s.setChan ch { c with regs := { c.regs with taildescMsb := v }, extended := c.extended || rs c.regs.cr }

inductive Act where
  | packet (ch : Ch) (data : List Byte)
  | receive (ch : Ch)
  | write (r : Reg) (v : BitVec 32)
  /-- Something else stores to memory. -/
  | setDesc (a : Addr) (bd : S2mmBd)
  | setMem (a : Addr) (bs : List Byte)

def step (s : State) : Act → Option State
  | .packet ch data => s.deliver ch data
  | .receive ch => s.receive ch
  | .write r v => some (s.write v r)
  | .setDesc a bd => some { s with desc := Function.update s.desc a bd }
  | .setMem a bs => some { s with mem := storeBytes s.mem a bs }

end S2mm

end LibSystemCTLM.Mcdma
