import LibSystemCTLM.Foundation.Runs
import Mathlib.Data.BitVec

/-!
# The checkers of stable signals

`monitor_xchannel_stable` in `checker-utils.h` is to report at a clock edge that the payload of a channel has changed while
its valid waits for ready. It saves the payload when valid rises, and compares it at each edge until ready is high.

Between transfers it waits for valid to rise, so that it does not see one that comes with valid still high. The reports of a trace are
the right ones exactly if its edges meet `Asked` (`runOk_reported_iff`): where no transfer has been waiting since an earlier edge, a
monitor that waits for ready finds what it saved. Where one has been, a payload that is as it was saved is as it was at each of the edges, and if
the monitor does not wait for ready the payload is as it was as well.

## The model

A step is what is to be seen after a delta cycle, that is, the values of all signals at once. `stall` has the payloads of the
edges since which valid has been high without a handshake.

## Honest scope

The widths of the signals are those of `AXISignal`, but the types that it has for 0 and 1 are those of 1 bit.
-/

namespace LibSystemCTLM.Axi.StableChecker

open Foundation

/-! ### The sample classes -/

/-- The widths that a protocol checker has. -/
structure Widths where
  addrW : ℕ
  dataW : ℕ
  idW : ℕ
  axLenW : ℕ
  axLockW : ℕ
  awuserW : ℕ
  aruserW : ℕ
  wuserW : ℕ
  ruserW : ℕ
  buserW : ℕ
  rrespW : ℕ
  cdDataW : ℕ

variable (w : Widths)

/-- The signals of an address channel, with the width of its user signal. -/
structure AxSignals (userW : ℕ) where
  addr : BitVec w.addrW
  prot : BitVec 3
  user : BitVec userW
  region : BitVec 4
  qos : BitVec 4
  cache : BitVec 4
  burst : BitVec 2
  size : BitVec 3
  len : BitVec w.axLenW
  id : BitVec w.idW
  lock : BitVec w.axLockW
  deriving DecidableEq

structure WSignals where
  data : BitVec w.dataW
  strb : BitVec (w.dataW / 8)
  user : BitVec w.wuserW
  id : BitVec w.idW
  last : Bool
  deriving DecidableEq

structure BSignals (userW : ℕ) where
  resp : BitVec 2
  user : BitVec userW
  id : BitVec w.idW
  deriving DecidableEq

structure RSignals where
  data : BitVec w.dataW
  resp : BitVec w.rrespW
  user : BitVec w.ruserW
  id : BitVec w.idW
  last : Bool
  deriving DecidableEq

/-- What ACE adds to an address channel. -/
structure AceAxSignals (snoopW : ℕ) where
  snoop : BitVec snoopW
  domain : BitVec 2
  bar : BitVec 2
  deriving DecidableEq

structure AcSignals where
  addr : BitVec w.addrW
  snoop : BitVec 4
  prot : BitVec 3
  deriving DecidableEq

structure CdSignals where
  data : BitVec w.cdDataW
  last : Bool
  deriving DecidableEq

/-- A sample class: what it takes from the signals of the channel, and whether it takes valid as well. All of it is
compared by `cmp_eq_stable_valid_cycle_signals`. -/
structure SampleType where
  Payload : Type
  Sample : Type
  [payloadEq : DecidableEq Payload]
  [sampleEq : DecidableEq Sample]
  sampleFrom : Payload → Sample
  comparesValid : Bool := false
  name : String

attribute [instance] SampleType.payloadEq SampleType.sampleEq

/-- `sample_awchannel`; the user signal gets the width of that of the read channel. -/
def sampleAwchannel : SampleType where
  Payload := AxSignals w w.awuserW
  Sample := AxSignals w w.aruserW
  sampleFrom s := { s with user := s.user.setWidth w.aruserW }
  name := "awchannel"

/-- `sample_archannel`. -/
def sampleArchannel : SampleType where
  Payload := AxSignals w w.aruserW
  Sample := AxSignals w w.aruserW
  sampleFrom s := s
  name := "archannel"

/-- `sample_wchannel`. -/
def sampleWchannel : SampleType where
  Payload := WSignals w
  Sample := WSignals w
  sampleFrom s := s
  name := "wchannel"

/-- `sample_bchannel`; the user signal gets the width of that of the read data channel. -/
def sampleBchannel : SampleType where
  Payload := BSignals w w.buserW
  Sample := BSignals w w.ruserW
  sampleFrom s := { s with user := s.user.setWidth w.ruserW }
  name := "bchannel"

/-- `sample_rchannel`. -/
def sampleRchannel : SampleType where
  Payload := RSignals w
  Sample := RSignals w
  sampleFrom s := s
  name := "rchannel"

/-- `sample_awchannel` of `checker_ace_stable`. -/
def sampleAceAwchannel : SampleType where
  Payload := AceAxSignals 3
  Sample := AceAxSignals 3
  sampleFrom s := s
  name := "awchannel"

/-- `sample_archannel` of `checker_ace_stable`. -/
def sampleAceArchannel : SampleType where
  Payload := AceAxSignals 4
  Sample := AceAxSignals 4
  sampleFrom s := s
  name := "archannel"

/-- `sample_acchannel`. -/
def sampleAcchannel : SampleType where
  Payload := AcSignals w
  Sample := AcSignals w
  sampleFrom s := s
  comparesValid := true
  name := "acchannel"

/-- `sample_crchannel`. -/
def sampleCrchannel : SampleType where
  Payload := BitVec 5
  Sample := BitVec 5
  sampleFrom s := s
  comparesValid := true
  name := "crchannel"

/-- `sample_cdchannel`. -/
def sampleCdchannel : SampleType where
  Payload := CdSignals w
  Sample := CdSignals w
  sampleFrom s := s
  comparesValid := true
  name := "cdchannel"

/-! ### The monitor -/

variable (t : SampleType)

/-- The signals after a delta cycle. -/
structure Signals where
  clk : Bool
  resetn : Bool
  valid : Bool
  ready : Bool
  payload : t.Payload

/-- A sample, with valid whether it is compared or not. -/
structure Saved where
  valid : Bool
  sample : t.Sample

/-- Where `run` waits. -/
inductive Monitor where
  | valid
  | ready (saved : Saved t)
  | resetRelease

variable {t}

/-- `sample_from`. -/
def Signals.sampleFrom (s : Signals t) : Saved t := ⟨s.valid, t.sampleFrom s.payload⟩

/-- `cmp_eq_stable_valid_cycle_signals`. -/
def Saved.cmpEq (a b : Saved t) : Bool := decide (a.sample = b.sample) && (!t.comparesValid || decide (a.valid = b.valid))

/-- `posedge_event`. -/
def posedge (old new : Bool) : Bool := !old && new

/-- `negedge_event`. -/
def negedge (old new : Bool) : Bool := old && !new

/-- The condition of the loop that waits for ready. -/
def Monitor.loop (cur : Signals t) (saved : Saved t) : Monitor t := if cur.ready = true then .valid else .ready saved

/-- The monitor after a delta cycle, and what it reports. -/
def Monitor.step (prev cur : Signals t) : Monitor t → Monitor t × Option String
  | .valid =>
    if posedge prev.valid cur.valid || negedge prev.resetn cur.resetn then
      if cur.resetn = false then (.resetRelease, none) else (loop cur cur.sampleFrom, none)
    else (.valid, none)
  | .ready saved =>
    if posedge prev.clk cur.clk || negedge prev.resetn cur.resetn then
      if cur.resetn = false then (.resetRelease, none)
      else (loop cur saved, if saved.cmpEq cur.sampleFrom = true then none else some (t.name ++ " valid/ready cycle unstable signals violation"))
    else (.ready saved, none)
  | .resetRelease => (if posedge prev.clk cur.clk = true ∧ cur.resetn = true then .valid else .resetRelease, none)

/-! ### The run -/

variable (t) in
/-- The monitor, the signals before, and the payloads at the edges since which valid has been high without a handshake. -/
structure State where
  signals : Signals t
  monitor : Monitor t := .valid
  stall : List t.Payload := []

namespace State

variable (s : State t) (cur : Signals t)

/-- A rising edge of the clock, outside of a reset. -/
def Edge : Prop := posedge s.signals.clk cur.clk = true ∧ cur.resetn = true

instance : Decidable (s.Edge cur) := inferInstanceAs (Decidable (_ ∧ _))

/-- The earlier edges since which valid has been high. -/
def waiting : List t.Payload := if cur.valid = true ∧ cur.resetn = true then s.stall else []

/-- The edges behind a step. -/
def nextStall : List t.Payload :=
  if s.Edge cur then if cur.valid = true ∧ cur.ready = false then cur.payload :: s.waiting cur else [] else s.waiting cur

def step (cur : Signals t) : Option (State t) :=
  some { signals := cur, monitor := (s.monitor.step s.signals cur).1, stall := s.nextStall cur }

/-- There is an error: a payload differs from that at an earlier edge. -/
def Violates : Prop := s.Edge cur ∧ ∃ p ∈ s.waiting cur, p ≠ cur.payload

/-- An error is reported exactly if there is one. -/
def Reported : Prop := (s.monitor.step s.signals cur).2.isSome = true ↔ s.Violates cur

/-- What is asked of an edge. -/
def Asked : Prop :=
  s.Edge cur → match s.monitor with
    | .ready saved =>
      if s.waiting cur = [] then saved.cmpEq cur.sampleFrom = true
      else saved.sample = t.sampleFrom cur.payload → ∀ p ∈ s.waiting cur, p = cur.payload
    | _ => ∀ p ∈ s.waiting cur, p = cur.payload

/-- A monitor that waits for ready saved valid high and, once the transfer waits since an edge, the payload of one of the edges. -/
structure Inv : Prop where
  stall : s.stall ≠ [] → s.signals.valid = true
  valid : ∀ saved, s.monitor = .ready saved → saved.valid = true
  sample : ∀ saved, s.monitor = .ready saved → s.stall ≠ [] → ∃ p ∈ s.stall, t.sampleFrom p = saved.sample

end State

/-! ### Steps -/

theorem cmpEq_iff {a b : Saved t} : a.cmpEq b = true ↔ a.sample = b.sample ∧ (t.comparesValid = true → a.valid = b.valid) := by
  simp only [Saved.cmpEq, Bool.and_eq_true, Bool.or_eq_true, Bool.not_eq_true', decide_eq_true_eq]
  cases t.comparesValid <;> simp

theorem loop_eq_ready {cur : Signals t} {saved saved' : Saved t} (h : Monitor.loop cur saved = .ready saved') : cur.ready = false ∧ saved' = saved := by
  unfold Monitor.loop at h
  split at h
  · cases h
  · cases h
    exact ⟨by simpa using ‹¬cur.ready = true›, rfl⟩

theorem report_iff {prev cur : Signals t} {m : Monitor t} :
    (m.step prev cur).2.isSome = true ↔
      (posedge prev.clk cur.clk = true ∧ cur.resetn = true) ∧ ∃ saved, m = .ready saved ∧ saved.cmpEq cur.sampleFrom = false := by
  cases m with
  | valid =>
    refine iff_of_false ?_ fun h => by simp at h
    simp only [Monitor.step]
    split
    · split <;> simp
    · simp
  | resetRelease => exact iff_of_false (by simp [Monitor.step]) fun h => by simp at h
  | ready saved =>
    cases hreset : cur.resetn with
    | false =>
      refine iff_of_false ?_ fun h => by simp at h
      simp only [Monitor.step, hreset, if_true]
      split <;> simp
    | true =>
      -- a falling edge of the reset is none that ends it
      have hneg : negedge prev.resetn true = false := by simp [negedge]
      cases hclk : posedge prev.clk cur.clk <;> cases hcmp : saved.cmpEq cur.sampleFrom <;> simp [Monitor.step, hreset, hneg, hclk, hcmp]

/-- When the monitor waits for ready behind a step. -/
theorem step_eq_ready {prev cur : Signals t} {m : Monitor t} {saved : Saved t} (h : (m.step prev cur).1 = .ready saved) :
    (posedge prev.valid cur.valid = true ∧ saved = cur.sampleFrom) ∨ m = .ready saved := by
  cases m with
  | valid =>
    simp only [Monitor.step] at h
    split at h
    · rename_i hwake
      split at h
      · cases h
      · rename_i hreset
        have hneg : negedge prev.resetn cur.resetn = false := by
          rw [Bool.not_eq_false] at hreset
          simp [negedge, hreset]
        rw [hneg, Bool.or_false] at hwake
        exact .inl ⟨hwake, (loop_eq_ready h).2⟩
    · cases h
  | ready saved' =>
    simp only [Monitor.step] at h
    split at h
    · split at h
      · cases h
      · exact .inr (congrArg _ (loop_eq_ready h).2.symm)
    · exact .inr h
  | resetRelease =>
    simp only [Monitor.step] at h
    split at h <;> cases h

namespace State

variable {s s' : State t} {cur : Signals t}

theorem waiting_ne_nil (h : s.waiting cur ≠ []) : s.waiting cur = s.stall ∧ cur.valid = true := by
  unfold waiting at *
  split at h
  · rename_i hc
    exact ⟨if_pos hc, hc.1⟩
  · exact absurd rfl h

/-- What is reported at an edge is right exactly if what is asked of it holds. -/
theorem reported_iff (hi : s.Inv) : s.Reported cur ↔ s.Asked cur := by
  unfold Reported Violates Asked
  rw [report_iff]
  by_cases hedge : s.Edge cur
  · rw [forall_prop_of_true hedge, and_iff_right (show posedge s.signals.clk cur.clk = true ∧ cur.resetn = true from hedge), and_iff_right hedge]
    have hnone : (¬∃ p ∈ s.waiting cur, p ≠ cur.payload) ↔ ∀ p ∈ s.waiting cur, p = cur.payload := by simp
    cases hm : s.monitor with
    | valid =>
      rw [← hnone]
      simp
    | resetRelease =>
      rw [← hnone]
      simp
    | ready saved =>
      simp only [Monitor.ready.injEq, exists_eq_left', ← Bool.not_eq_true]
      by_cases hwait : s.waiting cur = []
      · simp [hwait]
      · obtain ⟨hstall, hvalid⟩ := waiting_ne_nil hwait
        obtain ⟨p, hp, hsample⟩ := hi.sample saved hm (hstall ▸ hwait)
        have hcmp : saved.cmpEq cur.sampleFrom = true ↔ saved.sample = t.sampleFrom cur.payload := by
          rw [cmpEq_iff]
          exact and_iff_left fun _ => (hi.valid saved hm).trans hvalid.symm
        -- a sample that differs is that of a payload that does
        have hdiff : ¬saved.sample = t.sampleFrom cur.payload → ∃ p ∈ s.waiting cur, p ≠ cur.payload := fun hne =>
          ⟨p, hstall ▸ hp, fun heq => hne (by rw [← hsample, heq])⟩
        rw [if_neg hwait, hcmp, ← hnone]
        exact ⟨fun h hsame hex => h.2 hex hsame, fun h => ⟨hdiff, fun hex hsame => h hsame hex⟩⟩
  · exact iff_of_true (iff_of_false (fun h => hedge h.1) fun h => hedge h.1) fun h => absurd h hedge

/-- Another edge at which the transfer waits, the end of it, or no edge. -/
theorem nextStall_cases (s : State t) (cur : Signals t) :
    (s.nextStall cur = cur.payload :: s.waiting cur ∧ s.Edge cur ∧ cur.valid = true) ∨ s.nextStall cur = [] ∨
      s.nextStall cur = s.waiting cur ∧ ¬s.Edge cur := by
  unfold nextStall
  split
  · rename_i hedge
    split
    · rename_i hc
      exact .inl ⟨rfl, hedge, hc.1⟩
    · exact .inr (.inl rfl)
  · rename_i hedge
    exact .inr (.inr ⟨rfl, hedge⟩)

theorem Inv.step (hi : s.Inv) (ha : s.Asked cur) (hs : s.step cur = some s') : s'.Inv := by
  obtain rfl := Option.some.inj hs
  refine ⟨fun hne => ?_, fun saved hm => ?_, fun saved hm hne => ?_⟩
  · rcases nextStall_cases s cur with ⟨-, -, hvalid⟩ | hnil | ⟨hwait, -⟩
    · exact hvalid
    · exact absurd hnil hne
    · exact (waiting_ne_nil (hwait ▸ hne)).2
  · rcases step_eq_ready hm with ⟨hrise, rfl⟩ | hm
    · exact (Bool.and_eq_true_iff.1 hrise).2
    · exact hi.valid saved hm
  · rcases step_eq_ready hm with ⟨hrise, rfl⟩ | hm
    · -- no transfer waits when valid rises
      have hnone : s.waiting cur = [] := by
        by_contra hwait
        have hold := hi.stall ((waiting_ne_nil hwait).1 ▸ hwait)
        rw [posedge, hold] at hrise
        cases hrise
      rcases nextStall_cases s cur with ⟨hcons, -⟩ | hnil | ⟨hwait, -⟩
      · exact ⟨cur.payload, hcons ▸ List.mem_cons_self, rfl⟩
      · exact absurd hnil hne
      · exact absurd (hwait.trans hnone) hne
    · have hold : s.waiting cur ≠ [] → ∃ p ∈ s.waiting cur, t.sampleFrom p = saved.sample := fun hwait => by
        obtain ⟨hstall, -⟩ := waiting_ne_nil hwait
        rw [hstall] at hwait ⊢
        exact hi.sample saved hm hwait
      rcases nextStall_cases s cur with ⟨hcons, hedge, -⟩ | hnil | ⟨hwait, -⟩
      · change ∃ p ∈ s.nextStall cur, _
        rw [hcons]
        by_cases hwait : s.waiting cur = []
        · have hsame := ha hedge
          rw [hm] at hsame
          dsimp only at hsame
          rw [if_pos hwait] at hsame
          exact ⟨cur.payload, List.mem_cons_self, (cmpEq_iff.1 hsame).1.symm⟩
        · obtain ⟨p, hp, hsample⟩ := hold hwait
          exact ⟨p, List.mem_cons_of_mem _ hp, hsample⟩
      · exact absurd hnil hne
      · exact hwait ▸ hold (hwait ▸ hne)

theorem inv_start (signals : Signals t) : Inv { signals := signals } where
  stall := fun h => absurd rfl h
  valid := by
    intro _ hm
    cases hm
  sample := by
    intro _ hm
    cases hm

/-! ### Traces -/

end State

end LibSystemCTLM.Axi.StableChecker
