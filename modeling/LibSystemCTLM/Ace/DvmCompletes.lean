import LibSystemCTLM.Foundation.Runs
import Mathlib.Data.List.Nodup
import Mathlib.Data.Fintype.Defs
import Mathlib.Logic.Function.Basic

/-!
# DVM Syncs and their Completes

The interconnect snoops the other ports with a DVM Sync and collects their DVM Completes: a tracker for
each port marks who has completed its Sync, and when all have, a Complete is sent to the port that issued it
(`DVMCompleteHandler` and `exec_dvm_complete` in `iconnect-ace.h`).

## The model

The snoop engine takes a Sync or a Complete in one step. A Complete is sent by a thread of its own (`exec`),
which takes the tracker off the list when the port has it: a step of its own too, at any time.

`syncs` lists the Syncs so far, each with a number, `current` has the number of the Sync a tracker collects
for, `owed` the Syncs that a port has not completed, and `sent` those whose Complete went out.

## Honest scope

A Complete names no Sync: that of a port completes the oldest Sync it was snooped with. DVM messages that
are no Sync touch no tracker. Which ports take part (`GetForwardDVM`) stays as it is.
-/

namespace LibSystemCTLM.Ace.Dvm

open Foundation

/-- A DVM Sync, and the port that issued it. -/
structure Sync (n : ℕ) where
  number : ℕ
  port : Fin n
  deriving DecidableEq

/-- The handler of `NUM_ACE_MASTERS` ports, each with its tracker. -/
structure State (n : ℕ) where
  portDone : Fin n → Fin n → Bool := fun _ _ => true
  running : Fin n → Bool := fun _ => false
  /-- `m_list`. -/
  list : List (Fin n) := []
  /-- The threads in `exec_dvm_complete`, by their tracker. -/
  exec : List (Fin n) := []
  syncs : List (Sync n) := []
  current : Fin n → ℕ := fun _ => 0
  owed : Fin n → List ℕ := fun _ => []
  sent : List (Sync n) := []
  aborted : Bool := false

namespace State

variable {n : ℕ} (forward : Fin n → Bool) (s : State n)

/-- A port other than the one that issues the Sync takes part. -/
def participates (p q : Fin n) : Bool := forward q && decide (p ≠ q)

/-! ### Trackers -/

/-- `SetRunning`, whatever it is called with. -/
def setRunning (p : Fin n) : State n := { s with running := Function.update s.running p false }

/-- `PortDone` of a tracker whose port is not done. -/
def markDone (t p : Fin n) : State n := { s with portDone := Function.update s.portDone t (Function.update (s.portDone t) p true) }

/-- `Done`. -/
def Done (t : Fin n) : Prop := ∀ q, s.portDone t q = true

instance (t : Fin n) : Decidable (s.Done t) := inferInstanceAs (Decidable (∀ q, s.portDone t q = true))

/-- The Sync a tracker collects for. -/
def sync (t : Fin n) : Sync n := ⟨s.current t, t⟩

/-! ### The handler -/

/-- `StartCollectingFor`, with the Sync that is snooped. -/
def startCollectingFor (p : Fin n) : State n :=
  if s.running p = true then { s with aborted := true }
  else
    setRunning
      { s with
        portDone := Function.update s.portDone p fun q => if participates forward p q = true then false else s.portDone p q
        list := s.list ++ [p]
        syncs := s.syncs ++ [⟨s.syncs.length, p⟩]
        current := Function.update s.current p s.syncs.length
        owed := fun q => if participates forward p q = true then s.owed q ++ [s.syncs.length] else s.owed q }
      p

/-- `ReceivedFrom`: the first tracker that waits for the port. -/
def receivedFrom (p : Fin n) : Option (Fin n) := s.list.find? fun t => !s.portDone t p

/-- `GetDone`. -/
def getDone : Option (Fin n) := s.list.find? fun t => decide (s.Done t)

/-- `exec_dvm_complete` is spawned for a tracker. -/
def spawn (t : Fin n) : State n := { s with exec := s.exec ++ [t], sent := s.sent ++ [s.sync t] }

/-- `handle_dvm_complete`. -/
def handleDvmComplete (p : Fin n) : State n :=
  match s.receivedFrom p with
  | none => { s with aborted := true }
  | some t =>
    match (s.markDone t p).getDone with
    | none => s.markDone t p
    | some u => (s.markDone t p).spawn u

/-- A port completes the oldest Sync it was snooped with. -/
def complete (p : Fin n) : Option (State n) :=
  match s.owed p with
  | [] => none
  | _ :: rest => some (handleDvmComplete { s with owed := Function.update s.owed p rest } p)

/-- `SnoopDone`, when the Complete of a thread has been sent. -/
def snoopDone (k : ℕ) : Option (State n) :=
  s.exec[k]?.map fun t => setRunning { s with list := s.list.filter (· ≠ t), exec := s.exec.eraseIdx k } t

end State

inductive Act (n : ℕ) where
  | sync (p : Fin n)
  | complete (p : Fin n)
  | snoopDone (k : ℕ)

/-- A step, if the simulation runs. -/
def step {n : ℕ} (forward : Fin n → Bool) (s : State n) (a : Act n) : Option (State n) :=
  if s.aborted = true then none
  else
    match a with
    | .sync p => some (s.startCollectingFor forward p)
    | .complete p => s.complete p
    | .snoopDone k => s.snoopDone k

end LibSystemCTLM.Ace.Dvm
