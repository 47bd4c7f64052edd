import LibSystemCTLM.Axi.Axi2TlmOrder
import LibSystemCTLM.Foundation.Runs

/-!
# The checker of AXI handshakes

`axi_handshakes_checker` in `checker-utils.h` counts the read data beats, the write data beats and the responses
that are owed, and reports a hangup where a channel's `valid` is owed, or its `ready` is waited for, for `max_clks`
clock edges.

## The model

A step is a clock edge with the signals that are sampled at it, or a reset. The ledger is what there is to be
counted: the beats and addresses that were accepted, and for how many edges each channel has been due or pending.

## Honest scope

AXI4-Lite, whose transfers have no IDs, is left out. The counters, one for each transfer that is outstanding, are
numbers; the waits, which are compared with a `max_clks` of 64 bits, have their 32.
-/

namespace LibSystemCTLM.Axi.Handshakes

open Foundation Ace

/-! ### Signals -/

inductive Channel where
  | ar | r | aw | w | b
  deriving DecidableEq

/-- In the order in which they are looked at. -/
def channels : List Channel := [.ar, .r, .aw, .w, .b]

/-- The signals at an edge. -/
structure Edge where
  valid : Channel → Bool
  ready : Channel → Bool
  arlen : ℕ := 0
  arsnoop : AR := .readNoSnoop
  ardomain : Domain := .nonSharable
  arbar : BitVec 2 := 0
  awid : BitVec 32 := 0
  awlen : ℕ := 0
  awsnoop : AW := .writeNoSnoop
  awdomain : Domain := .nonSharable
  awbar : BitVec 2 := 0
  wid : BitVec 32 := 0
  wlast : Bool := false
  bid : BitVec 32 := 0

namespace Edge

variable (proto : Protocol) (e : Edge)

def transfer (c : Channel) : Bool := e.valid c && e.ready c

/-- `hasData`. -/
def hasData : Bool := !(proto.isAce && (Transaction.isEvictSnoop e.awdomain e.awsnoop || decide (e.awbar ≠ 0)))

/-- `get_arlen`. -/
def getArlen : ℕ := if (proto.isAce && hasSingleRdDataTransferSnoop e.ardomain e.arsnoop (decide (e.arbar ≠ 0))) = true then 0 else e.arlen

end Edge

/-! ### The monitor of a channel -/

inductive Report where
  /-- "valid hangup detected!" -/
  | validHangup (c : Channel)
  /-- "ready hangup detected!" -/
  | readyHangup (c : Channel)
  /-- "valid toggled without waiting for ready!" -/
  | toggled (c : Channel)
  deriving DecidableEq

/-- `HandshakeMonitor`. -/
structure Monitor where
  validWait : BitVec 32 := 0
  readyWait : BitVec 32 := 0

namespace Monitor

variable (m : Monitor) (maxClks : ℕ) (c : Channel)

/-- `inc_valid_w`. -/
def incValidW : Monitor × List Report :=
  ({ m with validWait := m.validWait + 1 }, if (m.validWait + 1).toNat = maxClks then [.validHangup c] else [])

/-- `inc_ready_w`. -/
def incReadyW : Monitor × List Report :=
  ({ m with readyWait := m.readyWait + 1 }, if (m.readyWait + 1).toNat = maxClks then [.readyHangup c] else [])

/-- `run`, but for the handshake that it returns. -/
def run (valid ready incValid : Bool) : Monitor × List Report :=
  if valid = false then
    let (next, reports) := if incValid = true then m.incValidW maxClks c else (m, [])
    (next, reports ++ if m.readyWait ≠ 0 then [.toggled c] else [])
  else if ready = false then m.incReadyW maxClks c
  else ({}, [])

end Monitor

/-! ### The checker -/

structure Checker where
  monitors : Channel → Monitor := fun _ => {}
  rt : ℕ := 0
  wd : ℤ := 0
  b : ℕ := 0
  aw : ℕ := 0
  wlast : ℕ := 0
  awids : List (BitVec 32) := []
  wids : List (BitVec 32) := []
  bids : List (BitVec 32) := []
  reports : List Report := []

namespace Checker

variable (proto : Protocol) (maxClks : ℕ) (e : Edge) (s : Checker)

/-- `inc_rvalid`, `inc_awvalid`, `inc_wvalid` and `inc_bvalid`. -/
def incValid : Channel → Bool
  | .ar => false
  | .r => decide (0 < s.rt)
  | .aw => decide (s.wd < 0)
  | .w => decide (0 < s.wd)
  | .b => decide (0 < s.b)

/-- What the monitor of a channel does at an edge. -/
def monitored (c : Channel) : Monitor × List Report := (s.monitors c).run maxClks c (e.valid c) (e.ready c) (s.incValid c)

/-- The monitors of all channels, which do not depend on the counters of this edge. -/
def monitor : Checker :=
  { s with
    monitors := fun c => (s.monitored maxClks e c).1
    reports := s.reports ++ channels.flatMap fun c => (s.monitored maxClks e c).2 }

def arHandshake : Checker := { s with rt := s.rt + (e.getArlen proto + 1) }

def rrHandshake : Checker := { s with rt := s.rt - 1 }

def awHandshake : Checker :=
  if e.hasData proto = false then { s with b := s.b + 1, bids := s.bids ++ [e.awid] }
  else
    let idInWids := if proto = .axi3 then decide (e.awid ∈ s.wids) else true
    if idInWids = true ∧ s.aw < s.wlast then
      { s with
        wd := s.wd + (e.awlen + 1)
        b := s.b + 1
        wlast := s.wlast - 1
        wids := if proto = .axi3 then s.wids.erase e.awid else s.wids
        bids := s.bids ++ [e.awid] }
    else { s with wd := s.wd + (e.awlen + 1), aw := s.aw + 1, awids := s.awids ++ [e.awid] }

def wHandshake : Checker :=
  if e.wlast = true then
    let idInAwids := if proto = .axi3 then decide (e.wid ∈ s.awids) else true
    if idInAwids = true ∧ s.wlast < s.aw then
      { s with
        wd := s.wd - 1
        b := s.b + 1
        aw := s.aw - 1
        awids := if proto = .axi3 then s.awids.erase e.wid else s.awids.tail
        bids := s.bids ++ if proto = .axi3 then [e.wid] else s.awids.head?.toList }
    else { s with wd := s.wd - 1, wlast := s.wlast + 1, wids := if proto = .axi3 then s.wids ++ [e.wid] else s.wids }
  else { s with wd := s.wd - 1 }

def bHandshake : Checker := if e.bid ∈ s.bids then { s with b := s.b - 1, bids := s.bids.erase e.bid } else s

/-- After the handshake of a channel, if there is one. -/
def on (c : Channel) (f : Edge → Checker → Checker) : Checker := if e.transfer c = true then f e s else s

/-- An edge of `run`, up to the write address. -/
def toAw : Checker := (((s.monitor maxClks e).on e .ar (arHandshake proto)).on e .r fun _ => rrHandshake).on e .aw (awHandshake proto)

/-- An edge of `run`. -/
def edge : Checker := ((s.toAw proto maxClks e).on e .w (wHandshake proto)).on e .b bHandshake

/-- A reset of `run`. -/
def reset : Checker := { reports := s.reports }

end Checker

/-! ### The ledger -/

/-- By what data beats have their address: by nothing but their order, or by their IDs. -/
def keyOf (proto : Protocol) (id : BitVec 32) : BitVec 32 := if proto = .axi3 then id else 0

/-- How many beats a read has. -/
def Edge.readBeats (proto : Protocol) (e : Edge) : ℕ :=
  let single := match e.arsnoop with
    | .cleanUnique | .makeUnique => e.ardomain.isShareable
    | .cleanShared | .cleanInvalid | .makeInvalid => decide (e.ardomain ≠ .system)
    | .dvmComplete | .dvmMessage => e.ardomain.isShareable
    | _ => false
  if (proto.isAce && (single || decide (e.arbar ≠ 0))) = true then 1 else e.arlen + 1

structure Ledger where
  /-- The read beats that are owed. -/
  owed : ℕ := 0
  /-- The keys of the beats that were announced, and that were transferred. -/
  announced : List (BitVec 32) := []
  transferred : List (BitVec 32) := []
  /-- The IDs of the addresses with data, of the last beats, of the addresses without data, and of the responses. -/
  addrs : List (BitVec 32) := []
  lasts : List (BitVec 32) := []
  dataless : List (BitVec 32) := []
  answered : List (BitVec 32) := []
  /-- For how many edges a channel's `valid`, and its `ready`, has been waited for. -/
  dueFor : Channel → ℕ := fun _ => 0
  pendingFor : Channel → ℕ := fun _ => 0
  hangs : List Report := []

namespace Ledger

variable (proto : Protocol) (maxClks : ℕ) (e : Edge) (l : Ledger)

/-- The writes with an ID whose address and last beat were accepted. -/
def completed (id : BitVec 32) : ℕ := if proto = .axi3 then min (l.addrs.count id) (l.lasts.count id) else (l.addrs.take l.lasts.length).count id

/-- The responses that are owed with an ID. -/
def unanswered (id : BitVec 32) : ℕ := l.completed proto id + l.dataless.count id - l.answered.count id

/-- A transfer is due. -/
def due : Channel → Bool
  | .ar => false
  | .r => decide (0 < l.owed)
  | .aw => l.transferred.any fun κ => decide (l.announced.count κ < l.transferred.count κ)
  | .w => l.announced.any fun κ => decide (l.transferred.count κ < l.announced.count κ)
  | .b => (l.addrs ++ l.dataless).any fun id => decide (0 < l.unanswered proto id)

/-- For how many edges `valid`, and `ready`, has been waited for after an edge. -/
def waits (c : Channel) : ℕ × ℕ :=
  if e.valid c = false then (if l.due proto c = true then l.dueFor c + 1 else 0, 0)
  else if e.ready c = false then (l.dueFor c, l.pendingFor c + 1)
  else (0, 0)

/-- The hangups of an edge: a wait has become as long as `max_clks`. -/
def hangups (c : Channel) : List Report :=
  if e.valid c = false then if l.due proto c = true ∧ l.dueFor c + 1 = maxClks then [.validHangup c] else []
  else if e.ready c = false ∧ l.pendingFor c + 1 = maxClks then [.readyHangup c]
  else []

/-- `l` where a channel has a transfer. -/
def given (c : Channel) (ids : List (BitVec 32)) : List (BitVec 32) := if e.transfer c = true then ids else []

def accept : Ledger where
  owed := l.owed + (if e.transfer .ar = true then e.readBeats proto else 0) - if e.transfer .r = true then 1 else 0
  announced := l.announced ++ given e .aw (if e.hasData proto = true then List.replicate (e.awlen + 1) (keyOf proto e.awid) else [])
  transferred := l.transferred ++ given e .w [keyOf proto e.wid]
  addrs := l.addrs ++ given e .aw (if e.hasData proto = true then [e.awid] else [])
  lasts := l.lasts ++ given e .w (if e.wlast = true then [e.wid] else [])
  dataless := l.dataless ++ given e .aw (if e.hasData proto = true then [] else [e.awid])
  answered := l.answered ++ given e .b [e.bid]
  dueFor c := (l.waits proto e c).1
  pendingFor c := (l.waits proto e c).2
  hangs := l.hangs ++ channels.flatMap (l.hangups proto maxClks e)

def reset : Ledger := { hangs := l.hangs }

end Ledger

/-! ### Steps -/

structure State where
  checker : Checker := {}
  ledger : Ledger := {}

inductive Act where
  | edge (e : Edge)
  | reset

def step (proto : Protocol) (maxClks : ℕ) (s : State) : Act → Option State
  | .edge e => some ⟨s.checker.edge proto maxClks e, s.ledger.accept proto maxClks e⟩
  | .reset => some ⟨s.checker.reset, s.ledger.reset⟩

end LibSystemCTLM.Axi.Handshakes
