import LibSystemCTLM.Foundation.Runs
import Mathlib.Data.BitVec

/-!
# The snoop channels of an ACE master

`ACESnoopChannels_M` of `private/ace/snoop-channels.h`: `ac_thread` accepts snoops, up to sixteen of them,
`cr_thread` runs each in its turn and responds to it, and `cd_thread` sends the data of those that have some.

`m_numACE` counts the snoops held. A reset deletes the ones that are on the list or in the fifo, and `cr_thread` the one it
runs, and no one counts them out. So the count is right along the runs whose resets find all of them behind `run_tlm`
(`counted_of_inv`, of the states of such runs).
-/

namespace LibSystemCTLM.Ace.SnoopMaster

open Foundation

/-- `ACETransaction`, with the values of the snoop address channel. -/
structure Transaction where
  acaddr : BitVec 64
  acsnoop : BitVec 4
  acprot : BitVec 3
  deriving DecidableEq

/-- Where `cr_thread` is. -/
inductive CrPhase where
  | idle
  /-- In `run_tlm`, and `AbortScheduled`. -/
  | tlm (tr : Transaction) (abortScheduled : Bool)
  /-- At `crready`, with a transaction that has no data to send. -/
  | response (tr : Option Transaction)
  /-- In `wait_for_reset_release`. -/
  | reset

structure State where
  resetn : Bool := true
  acready : Bool := true
  /-- `ac_thread` is in `wait_for_reset_release`. -/
  acWaits : Bool := false
  crList : List Transaction := []
  crPhase : CrPhase := .idle
  cdFifo : List Transaction := []
  /-- The transaction whose data `cd_thread` sends. -/
  cdCur : Option Transaction := none
  numACE : ℕ := 0

inductive Event where
  /-- A clock edge for `ac_thread`; the snoop, if `acvalid`. -/
  | acEdge (ac : Option Transaction)
  | crTake
  /-- `b_transport` returns and its delay has passed; `HasDataTransfer`. -/
  | tlmDone (hasDataTransfer : Bool)
  | crReady
  | crRelease
  | cdTake
  /-- All beats are sent. -/
  | cdDone
  | reset
  | release

/-- `m_maxACE`. -/
def maxACE : ℕ := 16

namespace State

variable (s : State)

/-- The turn of `ac_thread` that ends with `acready`. -/
def writeReady : State := { s with acready := decide (s.numACE < maxACE) }

def accept : Option Transaction → State
  | some tr => if s.acready = true then { s with crList := s.crList ++ [tr], numACE := s.numACE + 1 } else s
  | none => s

def acEdge (ac : Option Transaction) : State :=
  if s.resetn = false then s
  else if s.acWaits = true then { s with acWaits := false }.writeReady
  else (s.accept ac).writeReady

def tlmDone (tr : Transaction) (abortScheduled hasDataTransfer : Bool) : State :=
  if s.resetn = false then { s with crPhase := .reset }
  else if abortScheduled = true then { s with crPhase := .idle }
  else if hasDataTransfer = true then { s with crPhase := .response none, cdFifo := s.cdFifo ++ [tr] }
  else { s with crPhase := .response (some tr) }

/-- `reset`, which `ac_thread` also wakes for. -/
def reset : State :=
  { s with
    resetn := false
    acWaits := true
    crList := []
    cdFifo := []
    crPhase := match s.crPhase with
      | .tlm tr _ => .tlm tr true
      | p => p }

end State

def step (s : State) : Event → Option State
  | .acEdge ac => some (s.acEdge ac)
  | .crTake =>
    match s.crPhase, s.crList with
    | .idle, tr :: rest => some { s with crPhase := .tlm tr false, crList := rest }
    | _, _ => none
  | .tlmDone hasDataTransfer =>
    match s.crPhase with
    | .tlm tr abortScheduled => some (s.tlmDone tr abortScheduled hasDataTransfer)
    | _ => none
  | .crReady =>
    match s.crPhase with
    | .response (some _) => some { s with crPhase := .idle, numACE := s.numACE - 1 }
    | .response none => some { s with crPhase := .idle }
    | _ => none
  | .crRelease =>
    match s.crPhase with
    | .reset => if s.resetn = true then some { s with crPhase := .idle } else none
    | _ => none
  | .cdTake =>
    match s.cdCur, s.cdFifo with
    | none, tr :: rest => some { s with cdCur := some tr, cdFifo := rest }
    | _, _ => none
  | .cdDone =>
    match s.cdCur with
    | some _ => some { s with cdCur := none, numACE := s.numACE - 1 }
    | none => none
  | .reset => if s.resetn = true then some s.reset else none
  | .release => if s.resetn = false then some { s with resetn := true } else none

/-! ### The property -/

/-- The snoops that `cr_thread` has. -/
def CrPhase.count : CrPhase → ℕ
  | .tlm _ _ | .response (some _) => 1
  | _ => 0

/-- The snoops that are held. -/
def State.held (s : State) : ℕ := s.crList.length + s.crPhase.count + s.cdFifo.length + s.cdCur.toList.length

/-- **The count of outstanding snoops is right**: so there are sixteen at most, and out of reset a clock edge asserts
`acready` while there are less. -/
structure Counted (s : State) : Prop where
  numACE : s.numACE = s.held
  le : s.held ≤ maxACE
  ready : ∀ ac, s.resetn = true → (s.acEdge ac).acready = decide ((s.acEdge ac).held < maxACE)

/-- A reset finds no snoop before its response. -/
def Fair (s : State) : Event → Prop
  | .reset => s.crList = [] ∧ s.cdFifo = [] ∧ ∀ tr abortScheduled, s.crPhase ≠ .tlm tr abortScheduled
  | _ => True

instance : ∀ p : CrPhase, Decidable (∀ tr abortScheduled, p ≠ .tlm tr abortScheduled)
  | .tlm tr abortScheduled => .isFalse fun h => h tr abortScheduled rfl
  | .idle | .response _ | .reset => .isTrue nofun

instance : ∀ s e, Decidable (Fair s e)
  | s, .reset => inferInstanceAs (Decidable (s.crList = [] ∧ s.cdFifo = [] ∧ ∀ tr abortScheduled, s.crPhase ≠ .tlm tr abortScheduled))
  | _, .acEdge _ | _, .crTake | _, .tlmDone _ | _, .crReady | _, .crRelease | _, .cdTake | _, .cdDone | _, .release => .isTrue trivial

/-- What holds along a run. -/
structure Inv (s : State) : Prop where
  numACE : s.numACE = s.held
  le : s.numACE ≤ maxACE
  room : s.acready = true → s.numACE < maxACE
  /-- No response is given up. -/
  abort : ∀ tr, s.crPhase ≠ .tlm tr true
  low : s.resetn = false → s.crList = [] ∧ ∀ tr abortScheduled, s.crPhase ≠ .tlm tr abortScheduled

variable {s s' : State}

theorem inv_init : Inv {} := ⟨rfl, by decide, fun _ => by decide, nofun, nofun⟩

theorem Inv.acEdge (hi : Inv s) (ac : Option Transaction) : Inv (s.acEdge ac) := by
  unfold State.acEdge
  split_ifs with hr
  · exact hi
  · exact ⟨hi.numACE, hi.le, of_decide_eq_true, hi.abort, hi.low⟩
  · have hhigh : s.resetn ≠ false := hr
    cases ac with
    | none => exact ⟨hi.numACE, hi.le, of_decide_eq_true, hi.abort, hi.low⟩
    | some tr =>
      unfold State.accept
      split_ifs with hready
      · have hcount : s.numACE + 1 = (s.crList ++ [tr]).length + s.crPhase.count + s.cdFifo.length + s.cdCur.toList.length := by
          rw [hi.numACE, State.held, List.length_append, List.length_singleton]
          omega
        exact ⟨hcount, hi.room hready, of_decide_eq_true, hi.abort, fun h => absurd h hhigh⟩
      · exact ⟨hi.numACE, hi.le, of_decide_eq_true, hi.abort, hi.low⟩

theorem Inv.tlmDone {tr : Transaction} {abortScheduled : Bool} (hi : Inv s) (hp : s.crPhase = .tlm tr abortScheduled)
    (hasDataTransfer : Bool) : Inv (s.tlmDone tr abortScheduled hasDataTransfer) := by
  have hcount := hi.numACE
  rw [State.held, hp] at hcount
  unfold State.tlmDone
  split_ifs with hr ha
  · exact absurd hp ((hi.low hr).2 tr abortScheduled)
  · subst ha
    exact absurd hp (hi.abort tr)
  · refine ⟨?_, hi.le, hi.room, fun _ => nofun, fun h => absurd h hr⟩
    simp only [State.held, CrPhase.count, List.length_append, List.length_singleton] at hcount ⊢
    omega
  · exact ⟨hcount, hi.le, hi.room, fun _ => nofun, fun h => absurd h hr⟩

theorem Inv.done (hi : Inv s) (hheld : s.held = s'.held + 1) (hnum : s'.numACE = s.numACE - 1) (hready : s'.acready = s.acready)
    (habort : ∀ tr, s'.crPhase ≠ .tlm tr true)
    (hlow : s'.resetn = false → s'.crList = [] ∧ ∀ tr abortScheduled, s'.crPhase ≠ .tlm tr abortScheduled) : Inv s' := by
  have hcount := hi.numACE
  have hle := hi.le
  refine ⟨by omega, by omega, fun h => ?_, habort, hlow⟩
  have hlt := hi.room (hready ▸ h)
  omega

theorem Inv.step {e : Event} (hi : Inv s) (hok : Fair s e) (h : step s e = some s') : Inv s' := by
  cases e with
  | acEdge ac =>
    cases h
    exact hi.acEdge ac
  | crTake =>
    simp only [SnoopMaster.step] at h
    split at h
    next tr rest hp hl =>
      cases h
      have hcount := hi.numACE
      rw [State.held, hp, hl] at hcount
      refine ⟨?_, hi.le, hi.room, fun _ => nofun, fun hr => absurd (hi.low hr).1 (by simp [hl])⟩
      simp only [State.held, CrPhase.count, List.length_cons] at hcount ⊢
      omega
    · cases h
  | tlmDone hasDataTransfer =>
    simp only [SnoopMaster.step] at h
    split at h
    next tr abortScheduled hp =>
      cases h
      exact hi.tlmDone hp hasDataTransfer
    · cases h
  | crReady =>
    simp only [SnoopMaster.step] at h
    split at h
    next tr hp =>
      cases h
      refine hi.done ?_ rfl rfl (fun _ => nofun) fun hr => ⟨(hi.low hr).1, fun _ => nofun⟩
      rw [State.held, State.held, hp]
      simp only [CrPhase.count]
      omega
    next hp =>
      cases h
      refine ⟨?_, hi.le, hi.room, nofun, fun hr => ⟨(hi.low hr).1, nofun⟩⟩
      have hcount := hi.numACE
      rw [State.held, hp] at hcount
      exact hcount
    · cases h
  | crRelease =>
    simp only [SnoopMaster.step] at h
    split at h
    next hp =>
      split_ifs at h
      cases h
      refine ⟨?_, hi.le, hi.room, nofun, fun hr => ⟨(hi.low hr).1, nofun⟩⟩
      have hcount := hi.numACE
      rw [State.held, hp] at hcount
      exact hcount
    · cases h
  | cdTake =>
    simp only [SnoopMaster.step] at h
    split at h
    next tr rest hc hf =>
      cases h
      refine ⟨?_, hi.le, hi.room, hi.abort, hi.low⟩
      have hcount := hi.numACE
      rw [State.held, hc, hf] at hcount
      simp only [State.held, Option.toList_none, Option.toList_some, List.length_nil, List.length_cons] at hcount ⊢
      omega
    · cases h
  | cdDone =>
    simp only [SnoopMaster.step] at h
    split at h
    next tr hc =>
      cases h
      refine hi.done ?_ rfl rfl hi.abort hi.low
      simp only [State.held, hc, Option.toList_some, Option.toList_none, List.length_nil, List.length_cons]
    · cases h
  | reset =>
    simp only [SnoopMaster.step] at h
    split_ifs at h
    cases h
    obtain ⟨hl, hf, hp⟩ := hok
    have hphase : s.reset.crPhase = s.crPhase := by
      unfold State.reset
      cases hc : s.crPhase with
      | tlm tr abortScheduled => exact absurd hc (hp tr abortScheduled)
      | idle | response _ | reset => rfl
    refine ⟨?_, hi.le, hi.room, ?_, fun _ => ⟨rfl, ?_⟩⟩
    · have hcount := hi.numACE
      rw [State.held, hl, hf] at hcount
      rw [State.held, hphase]
      exact hcount
    · intro tr
      rw [hphase]
      exact hi.abort tr
    · intro tr abortScheduled
      rw [hphase]
      exact hp tr abortScheduled
  | release =>
    simp only [SnoopMaster.step] at h
    split_ifs at h
    cases h
    exact ⟨hi.numACE, hi.le, hi.room, hi.abort, nofun⟩

theorem counted_of_inv (hi : Inv s) : Counted s where
  numACE := hi.numACE
  le := hi.numACE ▸ hi.le
  ready := by
    intro ac hr
    rw [← (hi.acEdge ac).numACE]
    unfold State.acEdge
    rw [if_neg (by simp [hr])]
    split_ifs <;> rfl

theorem inv_of_run (h : Reach step Fair {} s) : Inv s := h.invariant inv_init fun hi hok hs => hi.step hok hs

end LibSystemCTLM.Ace.SnoopMaster
