import LibSystemCTLM.Foundation.Runs
import Mathlib.Data.Fintype.Basic

/-!
# The CHI link layer

Two CHI ports are connected by a link in each direction. A link has any number of channels, each a
`TxChannel` on one side and an `RxChannel` on the other; the `PortState` of each side activates and
deactivates the links.

## The model

Both ports run on one clock and are reset together. At a clock edge every process reads the signals
as they were before it and writes what they are after it; so a clock edge is one step, `tick`, that
computes the next state of every channel and port from the last. Only `RxChnlsDeactivated` reads a
counter that is no signal, and may see it before or after the channel's own process has run: a
`tick` says for each channel which (`before`). Between the edges, transactions are handed over
(`Process`), taken (`GetNext`), the wanted state is set (`SetState`), and reset begins and ends.

A transaction is the number of flits it still has to create; it is `Done` when none are left. A
channel `c` is given by the side `src c` that transmits on it.

## Honest scope

`flitpend` and `txsactive`, which no process reads, and what is in a flit are left out.
-/

namespace LibSystemCTLM.Chi

/-- The side of the connection. -/
inductive Side where
  | left | right
  deriving DecidableEq

/-- The other side. -/
def Side.peer : Side → Side
  | left => right
  | right => left

@[simp] theorem Side.peer_peer (s : Side) : s.peer.peer = s := by cases s <;> rfl

/-- `LinkState`. -/
inductive LinkState where
  | stop | activate | run | deactivate
  deriving DecidableEq

/-- `GetLinkState`. -/
def getLinkState : Bool → Bool → LinkState
  | true, true => .run
  | true, false => .activate
  | false, true => .deactivate
  | false, false => .stop

/-- `RxChannel::MAX_CREDITS`. -/
def maxCredits : ℕ := 15

/-- `TxChannel`: `m_credits`, `m_txList`, and the `flitv` it drives. -/
structure TxChannel where
  credits : ℕ := 0
  txList : List ℕ := []
  flitv : Bool := false
  deriving DecidableEq

/-- `RxChannel`: `m_credits`, the length of `m_txList`, and the `lcrdv` it drives. -/
structure RxChannel where
  credits : ℕ := maxCredits
  queued : ℕ := 0
  lcrdv : Bool := false
  deriving DecidableEq

/-- `PortState`: `m_state`, `deactivateTx`, and the `txlinkactivereq` and `rxlinkactiveack` it drives. -/
structure PortState where
  state : LinkState := .run
  deactivateTx : Bool := false
  txlinkactivereq : Bool := false
  rxlinkactiveack : Bool := false
  deriving DecidableEq

/-! ### The processes at a clock edge -/

namespace TxChannel

/-- The transaction at the head of the list, if it is done, is removed. -/
def dropDone : List ℕ → List ℕ
  | 0 :: l => l
  | l => l

/-- The end of `tx_thread`: the next flit, or a credit that is returned. -/
def setupFlit (link : LinkState) (t : TxChannel) : TxChannel :=
  match t.txList with
  | n :: l =>
    if t.credits ≠ 0 then { t with txList := (n - 1) :: l, flitv := true, credits := t.credits - 1 } else t
  | [] => if t.credits ≠ 0 ∧ link = .deactivate then { t with flitv := true, credits := t.credits - 1 } else t

/-- `tx_thread`. -/
def tick (link : LinkState) (lcrdv : Bool) (t : TxChannel) : TxChannel :=
  if link = .stop then t
  else
    let t := { t with flitv := false, credits := if lcrdv then t.credits + 1 else t.credits }
    if link = .activate then t else setupFlit link { t with txList := dropDone t.txList }

/-- `tx_thread` and `reset_thread` in reset. -/
def reset (t : TxChannel) : TxChannel := { t with flitv := false, txList := [] }

end TxChannel

namespace RxChannel

/-- A flit is received. -/
def receive (flitv : Bool) (r : RxChannel) : RxChannel := if flitv then { r with queued := r.queued + 1, credits := r.credits + 1 } else r

/-- A credit is granted. -/
def grant (r : RxChannel) : RxChannel := if r.credits ≠ 0 then { r with lcrdv := true, credits := r.credits - 1 } else r

/-- `rx_thread`. -/
def tick (link : LinkState) (flitv : Bool) (r : RxChannel) : RxChannel :=
  let r := { r with lcrdv := false }
  if link = .stop then r
  else
    let r := r.receive flitv
    if link = .deactivate then r else r.grant

/-- `rx_thread` and `reset_thread` in reset. -/
def reset (r : RxChannel) : RxChannel := { r with lcrdv := false, queued := 0 }

end RxChannel

namespace PortState

/-- The first half of `state_thread`, about the link it receives on. -/
def rxTick (rxState txState : LinkState) (deactivated : Bool) (p : PortState) : PortState :=
  match rxState with
  | .activate => { p with rxlinkactiveack := true }
  | .deactivate =>
    { p with
      rxlinkactiveack := if deactivated then false else p.rxlinkactiveack
      deactivateTx := if txState = .run ∨ txState = .activate then true else p.deactivateTx }
  | _ => p

/-- The second half of `state_thread`, about the link it transmits on. -/
def txTick (txState : LinkState) (p : PortState) : PortState :=
  match txState with
  | .stop => if p.state = .run then { p with txlinkactivereq := true } else p
  | .run => if p.state = .stop ∨ p.deactivateTx then { p with txlinkactivereq := false, deactivateTx := false } else p
  | _ => p

/-- `state_thread`. -/
def tick (rxState txState : LinkState) (deactivated : Bool) (p : PortState) : PortState := txTick txState (rxTick rxState txState deactivated p)

/-- `state_thread` in reset. -/
def reset (p : PortState) : PortState := { p with txlinkactivereq := false, rxlinkactiveack := false }

end PortState

/-! ### The two ports -/

/-- The two ports and the channels between them. -/
structure Link (C : Type) where
  tx : C → TxChannel := fun _ => {}
  rx : C → RxChannel := fun _ => {}
  port : Side → PortState := fun _ => {}
  resetn : Bool := true

namespace Link

variable {C : Type} [DecidableEq C]

/-- The state of the link that `s` transmits on. -/
def stateFrom (n : Link C) (s : Side) : LinkState := getLinkState (n.port s).txlinkactivereq (n.port s.peer).rxlinkactiveack

/-- What happens at a clock edge to the counters of a receiver. -/
def rxTick (src : C → Side) (n : Link C) (c : C) : RxChannel := (n.rx c).tick (n.stateFrom (src c)) (n.tx c).flitv

/-- `RxChnlsDeactivated`, with the receivers of which the process has run `before`. -/
def rxChnlsDeactivated [Fintype C] (src : C → Side) (before : C → Bool) (n : Link C) (s : Side) : Bool :=
  decide (∀ c, src c = s.peer → (if before c then n.rxTick src c else n.rx c).credits = maxCredits)

/-- A clock edge. -/
def tick [Fintype C] (src : C → Side) (before : C → Bool) (n : Link C) : Link C :=
  { n with
    tx := fun c => (n.tx c).tick (n.stateFrom (src c)) (n.rx c).lcrdv
    rx := n.rxTick src
    port := fun s => (n.port s).tick (n.stateFrom s.peer) (n.stateFrom s) (n.rxChnlsDeactivated src before s) }

/-- `resetn` falls. -/
def reset (n : Link C) : Link C :=
  { tx := fun c => (n.tx c).reset, rx := fun c => (n.rx c).reset, port := fun s => (n.port s).reset, resetn := false }

/-- What can happen. -/
inductive Act (C : Type) where
  | tick (before : C → Bool)
  | reset
  | release
  /-- A transaction of `n + 1` flits is handed over. -/
  | process (c : C) (n : ℕ)
  | getNext (c : C)
  | setState (s : Side) (l : LinkState)

/-- A step. In reset all processes wait for its end. -/
def step [Fintype C] (src : C → Side) (n : Link C) : Act C → Option (Link C)
  | .tick before => if n.resetn then some (n.tick src before) else some n
  | .reset => if n.resetn then some n.reset else none
  | .release => if n.resetn then none else some { n with resetn := true }
  | .process c k =>
    if n.resetn then some { n with tx := Function.update n.tx c { n.tx c with txList := (n.tx c).txList ++ [k + 1] } } else none
  | .getNext c =>
    if (n.rx c).queued ≠ 0 then some { n with rx := Function.update n.rx c { n.rx c with queued := (n.rx c).queued - 1 } } else none
  | .setState s l => some { n with port := Function.update n.port s { n.port s with state := l } }

end Link

end LibSystemCTLM.Chi
