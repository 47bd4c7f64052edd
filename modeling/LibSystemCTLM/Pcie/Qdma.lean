import LibSystemCTLM.Pcie.QdmaCtx
import LibSystemCTLM.Foundation.ByteStrings
import LibSystemCTLM.Foundation.Runs

/-!
# The QDMA

The queues of `qdma.h`: the driver writes contexts and producer indices through the configuration BAR, and
`run_mm_dma` goes through the descriptors of a ring in the memory of the host, copies what they say from the host
to the card or back, and writes the status behind the last of them and an entry of an interrupt ring.

## The model

A write of the driver is a step, and so is each turn of the loop of `run_mm_dma`; the driver waits for the return
of its write. Between the steps something else may store to either memory. `Except` carries the
errors: `SC_REPORT_ERROR` throws, as it does by default, or goes on, as a handler may have it (`Cfg.throws`), and
an access outside of an array or an assertion that fails is the end as well.

`runs` lists what `run_mm_dma` did for each producer index, `events` the interrupts.

## Honest scope

An MSI-X is the notification of its event: the thread that makes a pulse of it is left out, and so are the
legacy interrupt and the contexts and registers that nothing here reads.
-/

namespace LibSystemCTLM.Qdma

open Foundation Tlm

/-- The accesses of four bytes that a bus answers with `TLM_OK_RESPONSE`, by their addresses. -/
structure Bus where
  readOk : Addr → Bool := fun _ => true
  writeOk : Addr → Bool := fun _ => true

structure Cfg where
  flavour : Flavour
  /-- `SC_REPORT_ERROR` throws. -/
  throws : Bool
  hostBus : Bus
  cardBus : Bus

/-- How a simulation ends. -/
inductive Fault where
  | error | assertion | outside
  deriving DecidableEq

/-- `QDMA_QUEUE_COUNT`. -/
def queueCount : ℕ := 2

abbrev Queue := Fin queueCount

/-- Selectors of contexts. -/
def selSw (h2c : Bool) : ℕ := if h2c = true then 1 else 0

def selHw (h2c : Bool) : ℕ := if h2c = true then 3 else 2

def selIntCoal : ℕ := 8

def selQid2Vec : ℕ := 0xc

/-- A turn of the loop: the descriptor, and both memories before and after. -/
structure Visit where
  idx : BitVec 16
  host : Addr → Byte
  card : Addr → Byte
  host' : Addr → Byte
  card' : Addr → Byte

/-- The locals of `run_mm_dma`, with what it did so far. -/
structure Busy where
  qid : Queue
  h2c : Bool
  pidx : BitVec 16
  desc : ℕ → Byte
  entry : BitVec 64
  start : BitVec 16
  visits : List Visit := []

/-- What `run_mm_dma` did. -/
structure Run where
  sw : Ctx
  h2c : Bool
  start : BitVec 16
  pidx : BitVec 16
  /-- `hw_cidx` at the end. -/
  cidx : BitVec 16
  visits : List Visit
  /-- The memory of the host before and after the status was written. -/
  status : Option ((Addr → Byte) × (Addr → Byte))

/-- An entry put in an interrupt ring. -/
structure Put where
  ring : Queue
  slot : ℕ
  addr : Addr
  color : Bool
  /-- The base and the size of the ring that is programmed. -/
  base : Addr
  size : ℕ

inductive Event where
  /-- The context of the ring became valid. -/
  | validated (ring : Queue)
  /-- A queue is done that is to interrupt by way of a ring, which has this vector. -/
  | due (ring vector : ℕ)
  | entry (e : Put)
  | msix (vector : ℕ)

structure State where
  /-- `queue_contexts`. -/
  ctx : Queue → ℕ → Ctx := fun _ _ => 0
  /-- `R_IND_CTXT_DATA`. -/
  data : Ctx := 0
  irqRingEntryIdx : Queue → ℕ := fun _ => 0
  host : Addr → Byte := fun _ => 0
  card : Addr → Byte := fun _ => 0
  busy : Option Busy := none
  fault : Option Fault := none
  runs : List Run := []
  events : List Event := []
  /-- An index or a queue number that is out of range changed something. -/
  disturbed : Bool := false
  /-- No entry was put in the ring since its context became valid. -/
  blank : Queue → Bool := fun _ => true

section Words

/-- The little-endian word of four bytes. -/
def word32 (desc : ℕ → Byte) (off : ℕ) : BitVec 32 := desc (off + 3) ++ desc (off + 2) ++ desc (off + 1) ++ desc off

def word64 (desc : ℕ → Byte) (off : ℕ) : BitVec 64 := (word32 desc (off + 4)).setWidth 64 <<< 32 ||| (word32 desc off).setWidth 64

/-- The bytes of a word, the lowest first. -/
def wordBytes (v : BitVec 64) : List Byte := (List.range 8).map fun k => (v >>> (8 * k)).setWidth 8

/-- `x2c_mm_descriptor`. -/
def srcAddress (desc : ℕ → Byte) : Addr := word64 desc 0

def byteCount (desc : ℕ → Byte) : ℕ := (word32 desc 8 &&& 0xfffffff).toNat

def dstAddress (desc : ℕ → Byte) : Addr := word64 desc 16

/-- `x2c_wb_descriptor`: no error, and the two indices. -/
def statusDesc (desc : ℕ → Byte) (cidx pidx : BitVec 16) : ℕ → Byte
  | 0 => desc 0 &&& 0xfc
  | 2 => cidx.setWidth 8
  | 3 => (cidx >>> 8).setWidth 8
  | 4 => pidx.setWidth 8
  | 5 => (pidx >>> 8).setWidth 8
  | k => desc k

/-- The loop of `fetch_descriptor`, which stops at an error. -/
def fetchWords (bus : Bus) (mem : Addr → Byte) (addr : Addr) : ℕ → ℕ → (ℕ → Byte) → (ℕ → Byte) × Bool
  | 0, _, desc => (desc, true)
  | n + 1, i, desc =>
    if bus.readOk (addr + BitVec.ofNat 64 i) = true then
      fetchWords bus mem addr n (i + 4) fun k => if i ≤ k ∧ k < i + 4 then mem (addr + BitVec.ofNat 64 k) else desc k
    else (desc, false)

/-- The loop of `do_mm_dma` from a bus to the other, which stops at an error. -/
def copyWords (init tgt : Bus) (src : Addr → Byte) : ℕ → Addr → Addr → (Addr → Byte) → (Addr → Byte) × Bool
  | 0, _, _, mem => (mem, true)
  | n + 1, s, d, mem =>
    if init.readOk s = false then (mem, false)
    else if tgt.writeOk d = false then (mem, false)
    else copyWords init tgt src n (s + 4) (d + 4) (storeBytes mem d (loadBytes src s 4))

end Words

namespace State

variable (cfg : Cfg) (s : State)

/-- `SC_REPORT_ERROR`, with what comes behind it. -/
def report {α : Type} (x : α) : Except State α := if cfg.throws = true then .error { s with fault := some .error } else .ok x

/-- An access outside of an array. -/
def outOfBounds {α : Type} : Except State α := .error { s with fault := some .outside }

def sw (q : Queue) (h2c : Bool) : Ctx := s.ctx q (selSw h2c)

def cidx (q : Queue) (h2c : Bool) : BitVec 16 := HwCtx.cidx (s.ctx q (selHw h2c))

def setCtx (q : Queue) (sel : ℕ) (c : Ctx) : State := { s with ctx := Function.update s.ctx q (Function.update (s.ctx q) sel c) }

/-- `irq_aggregation_enabled`. -/
def irqAggregationEnabled (q : Queue) (h2c : Bool) : Bool :=
  match cfg.flavour with
  | .cpm4 => (s.ctx q selQid2Vec).getLsbD (if h2c = true then 17 else 8)
  | .cpm5 => (s.sw q h2c).getLsbD 139

/-- `get_vec`. -/
def getVec (q : Queue) (h2c : Bool) : ℕ :=
  match cfg.flavour with
  | .cpm4 => ((s.ctx q selQid2Vec).extractLsb' (if h2c = true then 9 else 0) 8).toNat
  | .cpm5 => ((s.sw q h2c).extractLsb' 128 11).toNat

/-! ### Context commands -/

/-- `handle_irq_ctxt_cmd`. -/
def handleIrqCtxtCmd (ring : Queue) (cmd : ℕ) : State :=
  let c := s.ctx ring selIntCoal
  match cmd with
  | 0 => s.setCtx ring selIntCoal 0
  | 1 =>
    if IntrCtx.valid s.data = true ∧ IntrCtx.valid c = false then
      { s.setCtx ring selIntCoal s.data with
        irqRingEntryIdx := Function.update s.irqRingEntryIdx ring 0
        blank := Function.update s.blank ring true
        events := s.events ++ [.validated ring] }
    else s.setCtx ring selIntCoal s.data
  | 2 => { s with data := c }
  | 3 => s.setCtx ring selIntCoal (IntrCtx.invalidate c)
  | _ => s

/-- `handle_ctxt_cmd`. -/
def handleCtxtCmd (reg : BitVec 32) : Except State State :=
  let qid := (reg.extractLsb' 7 13).toNat
  let cmd := (reg.extractLsb' 5 2).toNat
  let sel := (reg.extractLsb' 1 4).toNat
  if h : qid < queueCount then
    let q : Queue := ⟨qid, h⟩
    if sel = selIntCoal then .ok (s.handleIrqCtxtCmd q cmd)
    else if sel ≤ 7 ∨ sel = selQid2Vec then
      match cmd with
      | 0 => .ok (s.setCtx q sel 0)
      | 1 => .ok (s.setCtx q sel s.data)
      | 2 => .ok { s with data := s.ctx q sel }
      | _ => .ok s
    else s.report cfg s
  else if sel = selIntCoal then outOfBounds { s with disturbed := true }
  else .error { s with fault := some .assertion }

/-! ### Descriptors -/

/-- `fetch_descriptor`. -/
def fetchDescriptor (addr : Addr) (size : ℕ) (desc : ℕ → Byte) : Except State (ℕ → Byte) :=
  match fetchWords cfg.hostBus s.host addr (size / 4) 0 desc with
  | (desc, true) => .ok desc
  | (desc, false) => s.report cfg desc

/-- `do_mm_dma`. -/
def doMmDma (src dst : Addr) (size : ℕ) (h2c : Bool) : Except State State :=
  if h2c = true then
    match copyWords cfg.hostBus cfg.cardBus s.host ((size + 3) / 4) src dst s.card with
    | (card, true) => .ok { s with card := card }
    | (card, false) => report cfg { s with card := card } { s with card := card }
  else
    match copyWords cfg.cardBus cfg.hostBus s.card ((size + 3) / 4) src dst s.host with
    | (host, true) => .ok { s with host := host }
    | (host, false) => report cfg { s with host := host } { s with host := host }

/-- The status is put in the last descriptor. -/
def writeStatus (b : Busy) : Except State State := do
  let c := s.sw b.qid b.h2c
  let addr := SwCtx.descAddr c (SwCtx.ringSize c)
  let desc ← s.fetchDescriptor cfg addr (SwCtx.descSize c) b.desc
  let bytes := (List.range (SwCtx.descSize c)).map (statusDesc desc (s.cidx b.qid b.h2c) b.pidx)
  if cfg.hostBus.writeOk addr = true then .ok { s with host := storeBytes s.host addr bytes } else s.report cfg s

/-! ### Interrupts -/

/-- The notification of an event of `msix_trig`, of which there are `NR_QDMA_IRQ`. -/
def notify (vector : ℕ) : Except State State :=
  if vector < 8 then .ok { s with events := s.events ++ [.msix vector] } else s.outOfBounds

/-- The index behind that of an entry, and the colour behind a wrap around. -/
def nextEntry (ring : Queue) : State :=
  let c := s.ctx ring selIntCoal
  let i := s.irqRingEntryIdx ring + 1
  if i * 8 = IntrCtx.size cfg.flavour c then
    { s.setCtx ring selIntCoal (IntrCtx.setColor cfg.flavour c !(IntrCtx.color cfg.flavour c)) with
      irqRingEntryIdx := Function.update s.irqRingEntryIdx ring 0 }
  else { s with irqRingEntryIdx := Function.update s.irqRingEntryIdx ring i }

/-- The store of an entry. -/
def putEntry (ring : Queue) (e : Entry) (stack : BitVec 64) : Except State State :=
  let c := s.ctx ring selIntCoal
  let base : Addr := (IntrCtx.baddr cfg.flavour c).setWidth 64 <<< 12
  let addr := base + BitVec.ofNat 64 (8 * s.irqRingEntryIdx ring)
  if cfg.hostBus.writeOk addr = true then
    .ok { s with
      host := storeBytes s.host addr (wordBytes (e.encode cfg.flavour stack))
      blank := Function.update s.blank ring false
      events := s.events ++ [.entry ⟨ring, s.irqRingEntryIdx ring, addr, e.color, base, IntrCtx.size cfg.flavour c⟩] }
  else s.report cfg s

/-- `write_irq_ring_entry`. -/
def writeIrqRingEntry (ring : Queue) (e : Entry) (stack : BitVec 64) : Except State State := do
  let s ← s.putEntry cfg ring e stack
  .ok (s.nextEntry cfg ring)

/-- The interrupt of a queue that is done goes by a ring. -/
def coalesce (b : Busy) (ring : Queue) : Except State State :=
  let ic := IntrCtx.setPidx cfg.flavour (s.ctx ring selIntCoal) (b.pidx.setWidth 12)
  let s := s.setCtx ring selIntCoal ic
  if IntrCtx.valid ic = false then s.report cfg s
  else do
    let e : Entry := ⟨b.qid, b.h2c, IntrCtx.color cfg.flavour ic, s.cidx b.qid b.h2c, (IntrCtx.pidx cfg.flavour ic).setWidth 16⟩
    let s := { s with events := s.events ++ [Event.due ring (IntrCtx.vector cfg.flavour ic)] }
    let s ← s.writeIrqRingEntry cfg ring e b.entry
    s.notify (IntrCtx.vector cfg.flavour ic)

/-- The interrupt of a queue that is done. -/
def interrupt (b : Busy) : Except State State :=
  let c := s.sw b.qid b.h2c
  if SwCtx.irqArm c = false ∨ SwCtx.irqEnabled c = false then .ok s
  else if s.irqAggregationEnabled cfg b.qid b.h2c = true then
    if h : s.getVec cfg b.qid b.h2c < queueCount then s.coalesce cfg b ⟨s.getVec cfg b.qid b.h2c, h⟩
    else outOfBounds { s with events := s.events ++ [.due (s.getVec cfg b.qid b.h2c) 0] }
  else s.notify (s.getVec cfg b.qid b.h2c)

/-! ### `run_mm_dma` -/

/-- `run_mm_dma` up to the loop. There is no check of a queue number that is one too large. -/
def runMmDma (qid : ℕ) (h2c : Bool) (v : BitVec 32) (desc : ℕ → Byte) (entry : BitVec 64) : Except State State :=
  if h : qid < queueCount then
    let q : Queue := ⟨qid, h⟩
    let pidx := v.setWidth 16
    let c := SwCtx.setPidx (s.sw q h2c) pidx
    let inRing := decide (pidx.toNat < SwCtx.ringSize c)
    let s' := { s.setCtx q (selSw h2c) c with
      busy := some { qid := q, h2c := h2c, pidx := pidx, desc := desc, entry := entry, start := s.cidx q h2c }
      disturbed := s.disturbed || !inRing && !(cfg.throws && decide (SwCtx.pidx (s.sw q h2c) = pidx)) }
    if inRing = true then .ok s' else s'.report cfg s'
  else outOfBounds { s with disturbed := true }

/-- The loop is left. -/
def record (b : Busy) (status : Option ((Addr → Byte) × (Addr → Byte))) : State :=
  { s with
    busy := none
    runs := s.runs ++ [⟨s.sw b.qid b.h2c, b.h2c, b.start, b.pidx, s.cidx b.qid b.h2c, b.visits, status⟩] }

/-- The consumer index behind one. -/
def nextCidx (ringSize : ℕ) (i : BitVec 16) : BitVec 16 := if i.toNat = ringSize - 1 then 0 else i + 1

/-- Behind the last descriptor: the status, the interrupt, and the end of the loop. -/
def complete (b : Busy) : Except State State :=
  if SwCtx.writebackEn (s.sw b.qid b.h2c) = true then do
    let s' ← s.writeStatus cfg b
    (s'.record b (some (s.host, s'.host))).interrupt cfg b
  else (s.record b none).interrupt cfg b

/-- The index of a turn goes on, and the loop with it. -/
def advance (b : Busy) : Except State State :=
  let c := s.sw b.qid b.h2c
  let next := nextCidx (SwCtx.ringSize c) (s.cidx b.qid b.h2c)
  let s' := { s.setCtx b.qid (selHw b.h2c) (HwCtx.setCidx (s.ctx b.qid (selHw b.h2c)) next) with busy := some b }
  if SwCtx.pidx c = next then s'.complete cfg b else .ok s'

/-- A turn of the loop: the descriptor is copied, the index goes on, and the rest if it was the last. -/
def iterate (b : Busy) : Except State State :=
  let c := s.sw b.qid b.h2c
  let i := s.cidx b.qid b.h2c
  if SwCtx.pidx c = i then .ok (s.record b none)
  else do
    let desc ← s.fetchDescriptor cfg (SwCtx.descAddr c i.toNat) (SwCtx.descSize c) b.desc
    let s' ← s.doMmDma cfg (srcAddress desc) (dstAddress desc) (byteCount desc) b.h2c
    s'.advance cfg { b with desc := desc, visits := b.visits ++ [⟨i, s.host, s.card, s'.host, s'.card⟩] }

/-- An exception leaves `run_mm_dma`. -/
def caught : Except State State → State
  | .ok s => s
  | .error s => { s with busy := none }

end State

inductive Act where
  /-- A producer index, with what `run_mm_dma` finds on its stack. -/
  | pidx (qid : ℕ) (h2c : Bool) (v : BitVec 32) (desc : ℕ → Byte) (entry : BitVec 64)
  /-- A word of `R_IND_CTXT_DATA`. -/
  | data (i : Fin 8) (v : BitVec 32)
  /-- `R_IND_CTXT_CMD`. -/
  | cmd (v : BitVec 32)
  | iterate
  /-- Something else stores to memory. -/
  | setHost (a : Addr) (bs : List Byte)
  | setCard (a : Addr) (bs : List Byte)

/-- `config_bar_b_transport`, and the turns of the loop. The registers of the producer indices end with those of
the queue that is one too many; behind them a write is just kept. -/
def State.act (cfg : Cfg) (s : State) : Act → Option State
  | .pidx qid h2c v desc entry =>
    match s.busy with
    | none => some (if qid ≤ queueCount then State.caught (s.runMmDma cfg qid h2c v desc entry) else s)
    | some _ => none
  | .data i v =>
    match s.busy with
    | none => some { s with data := deposit s.data (32 * i) v }
    | some _ => none
  | .cmd v =>
    match s.busy with
    | none => some (State.caught (s.handleCtxtCmd cfg v))
    | some _ => none
  | .iterate => s.busy.map fun b => State.caught (s.iterate cfg b)
  | .setHost a bs => some { s with host := storeBytes s.host a bs }
  | .setCard a bs => some { s with card := storeBytes s.card a bs }

/-- Nothing goes on behind a fault. -/
def step (cfg : Cfg) (s : State) (a : Act) : Option State := if s.fault = none then s.act cfg a else none

end LibSystemCTLM.Qdma
