import LibSystemCTLM.Chi.Link

/-!
# The CXS link

Two CCIX bridges are connected by CXS, with a `TxLink` and an `RxLink` on each side; the `PortState` of each side
activates and deactivates the links.

## The model

Both sides run on one clock, and each has its own reset. At a clock edge every process that is not in reset reads the
signals as they were before it and writes what they are after it; `RxLink::Deactivated` reads a counter that is no signal,
and may see it before or after `rx_thread` has run (`before`). Between the edges, TLPs are handed over, the wanted
state is set, and resets begin and end. The states of a link are those of `Chi.LinkState`.

A TLP is the number of flits it still has to create. The data of the flits, and what is made of it, is left out.
-/

namespace LibSystemCTLM.Ccix.Cxs

open Foundation Chi

/-- `TxLink`: `m_credits`, `m_tlpList`, and the `txvalid` and `txcrdrtn` it drives. -/
structure TxLink where
  credits : ℕ := 0
  tlpList : List ℕ := []
  txvalid : Bool := false
  txcrdrtn : Bool := false

/-- `RxLink`: `m_credits`, of which there are `MAX_CREDITS`, and the `rxcrdgnt` it drives. -/
structure RxLink where
  credits : ℕ := maxCredits
  rxcrdgnt : Bool := false

/-- `PortState`: `m_state`, `deactivateTx`, and the `txactivereq` and `rxactiveack` it drives. -/
structure PortState where
  state : LinkState := .run
  deactivateTx : Bool := false
  txactivereq : Bool := false
  rxactiveack : Bool := false

namespace TxLink

/-- The TLP at the head of the list, if it is done, is removed. -/
def dropDone : List ℕ → List ℕ
  | 0 :: l => l
  | l => l

/-- The end of `tx_thread`: the next flit, or a credit that is returned. -/
def setupFlit (link : LinkState) (t : TxLink) : TxLink :=
  match t.tlpList with
  | n :: l => if t.credits ≠ 0 then { t with tlpList := (n - 1) :: l, txvalid := true, credits := t.credits - 1 } else t
  | [] => if t.credits ≠ 0 ∧ link = .deactivate then { t with txcrdrtn := true, credits := t.credits - 1 } else t

/-- `tx_thread`. -/
def tick (link : LinkState) (txcrdgnt : Bool) (t : TxLink) : TxLink :=
  if link = .stop then t
  else
    let t := { t with txvalid := false, txcrdrtn := false, credits := if txcrdgnt = true then t.credits + 1 else t.credits }
    if link = .activate then t else setupFlit link { t with tlpList := dropDone t.tlpList }

/-- `tx_thread` and `reset_thread` in reset: `txcrdrtn` stays. -/
def reset (t : TxLink) : TxLink := { t with txvalid := false, tlpList := [] }

end TxLink

namespace RxLink

/-- A flit is received, or a credit is returned. -/
def receive (rxvalid rxcrdrtn : Bool) (r : RxLink) : RxLink :=
  if rxvalid = true then { r with credits := r.credits + 1 } else if rxcrdrtn = true then { r with credits := r.credits + 1 } else r

/-- A credit is granted. -/
def grant (r : RxLink) : RxLink := if r.credits ≠ 0 then { r with rxcrdgnt := true, credits := r.credits - 1 } else r

/-- `rx_thread`. -/
def tick (link : LinkState) (rxvalid rxcrdrtn : Bool) (r : RxLink) : RxLink :=
  let r := { r with rxcrdgnt := false }
  if link = .stop then r
  else
    let r := r.receive rxvalid rxcrdrtn
    if link = .deactivate then r else r.grant

/-- `rx_thread` in reset. -/
def reset (r : RxLink) : RxLink := { r with rxcrdgnt := false }

end RxLink

namespace PortState

/-- The first half of `state_thread`, about the link it receives on. -/
def rxTick (rxState txState : LinkState) (deactivated : Bool) (p : PortState) : PortState :=
  match rxState with
  | .activate => { p with rxactiveack := true }
  | .deactivate =>
    { p with
      rxactiveack := if deactivated = true then false else p.rxactiveack
      deactivateTx := if txState = .run ∨ txState = .activate then true else p.deactivateTx }
  | _ => p

/-- The second half of `state_thread`, about the link it transmits on. -/
def txTick (txState : LinkState) (p : PortState) : PortState :=
  match txState with
  | .stop => if p.state = .run then { p with txactivereq := true } else p
  | .run => if p.state = .stop ∨ p.deactivateTx = true then { p with txactivereq := false, deactivateTx := false } else p
  | _ => p

/-- `state_thread`. -/
def tick (rxState txState : LinkState) (deactivated : Bool) (p : PortState) : PortState := txTick txState (rxTick rxState txState deactivated p)

/-- `state_thread` in reset. -/
def reset (p : PortState) : PortState := { p with txactivereq := false, rxactiveack := false }

end PortState

/-! ### The two sides -/

/-- The two sides. A side's `RxLink` receives what the `TxLink` of the other one sends. -/
structure Link where
  tx : Side → TxLink := fun _ => {}
  rx : Side → RxLink := fun _ => {}
  port : Side → PortState := fun _ => {}
  resetn : Side → Bool := fun _ => true

namespace Link

variable (n : Link)

/-- The state of the link that `s` transmits on. -/
def stateFrom (s : Side) : LinkState := getLinkState (n.port s).txactivereq (n.port s.peer).rxactiveack

/-- What happens at a clock edge on the side that transmits. -/
def txTick (s : Side) : TxLink := if n.resetn s = true then (n.tx s).tick (n.stateFrom s) (n.rx s.peer).rxcrdgnt else n.tx s

/-- And on the side that receives. -/
def rxTick (s : Side) : RxLink :=
  if n.resetn s = true then (n.rx s).tick (n.stateFrom s.peer) (n.tx s.peer).txvalid (n.tx s.peer).txcrdrtn else n.rx s

/-- `RxLinkDeactivated`, seen before or after `rx_thread` has run. -/
def rxLinkDeactivated (before : Side → Bool) (s : Side) : Bool :=
  decide ((if before s = true then n.rxTick s else n.rx s).credits = maxCredits)

def portTick (before : Side → Bool) (s : Side) : PortState :=
  if n.resetn s = true then (n.port s).tick (n.stateFrom s.peer) (n.stateFrom s) (n.rxLinkDeactivated before s) else n.port s

/-- A clock edge. -/
def tick (before : Side → Bool) : Link := { n with tx := n.txTick, rx := n.rxTick, port := n.portTick before }

/-- `resetn` of a side falls. -/
def reset (s : Side) : Link where
  tx d := if d = s then (n.tx d).reset else n.tx d
  rx d := if d = s then (n.rx d).reset else n.rx d
  port d := if d = s then (n.port d).reset else n.port d
  resetn d := if d = s then false else n.resetn d

/-- What can happen. -/
inductive Act where
  | tick (before : Side → Bool)
  | reset (s : Side)
  | release (s : Side)
  /-- A TLP of `k + 1` flits is handed over. -/
  | process (s : Side) (k : ℕ)
  | setState (s : Side) (l : LinkState)

/-- A step. -/
def step (n : Link) : Act → Option Link
  | .tick before => some (n.tick before)
  | .reset s => if n.resetn s = true then some (n.reset s) else none
  | .release s => if n.resetn s = true then none else some { n with resetn := fun d => if d = s then true else n.resetn d }
  | .process s k => some { n with tx := fun d => if d = s then { n.tx d with tlpList := (n.tx d).tlpList ++ [k + 1] } else n.tx d }
  | .setState s l => some { n with port := fun d => if d = s then { n.port d with state := l } else n.port d }

end Link

end LibSystemCTLM.Ccix.Cxs
