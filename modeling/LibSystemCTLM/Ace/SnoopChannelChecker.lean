import LibSystemCTLM.Foundation.Runs
import Mathlib.Data.BitVec
import Mathlib.Data.List.Basic

/-!
# The checker of the snoop channels

`checker_ace_snoop_channels` in `checker-ace.h` keeps the snoops that are not answered, and of those that were answered
with data the ones that are owed beats. A response is of the first of the former, a beat of the first of the latter.

The ledger beside it records the transfers and counts the beats. The checker agrees with it, step by step, exactly if
a snoop comes only below `max_depth` and `cdlast` is not asserted early: only of the last beat by its own count does
the checker look at `cdlast` (`runOk_snoops_iff`).

## The model

The three channels are looked at in the order of `Edge.transfers`, and a step is one transfer, or a reset.

## Honest scope

`CD_DATA_W` is at least 8. Addresses are sampled in 32 bits, and nothing but their alignment is looked at.
-/

namespace LibSystemCTLM.Ace.SnoopChannelChecker

open Foundation

/-- What the checker is configured with. -/
structure Config where
  maxDepth : ℕ
  cachelineSz : BitVec 32
  cdDataW : ℕ

/-- `beats_per_cacheline`. -/
def Config.beats (c : Config) : ℕ := c.cachelineSz.toNat / (c.cdDataW / 8)

theorem Config.beats_lt (c : Config) : c.beats < 2 ^ 32 := Nat.lt_of_le_of_lt (Nat.div_le_self _ _) c.cachelineSz.isLt

/-! ### Transactions -/

/-- The signals of the snoop address channel. -/
structure Snoop (w : ℕ) where
  acaddr : BitVec w
  acsnoop : BitVec 4
  acprot : BitVec 3
  deriving DecidableEq

/-- `checker_ace_snoop_channels::Transaction`. -/
structure Transaction where
  acaddr : BitVec 64
  acsnoop : BitVec 8
  acprot : BitVec 8
  crresp : BitVec 8 := 0
  numBeats : BitVec 32 := 0
  deriving DecidableEq

/-- What is reported. -/
inductive Report where
  /-- "acsnoop error:" -/
  | acsnoop
  /-- "acaddr error: not aligned to snoop data bus byte width" -/
  | acaddr
  /-- "Maximum outstanding transactions reached" -/
  | maximum
  /-- "crresp error: PassDirty set but not DataTransfer" -/
  | passDirty
  /-- "crresp error: IsShared wrongly asserted" -/
  | isShared
  /-- "cr channel error: Unexpected cr channel activity" -/
  | crUnexpected
  /-- "cd channel error: cdlast not set" -/
  | cdlast
  /-- "Unexpected cd channel activity" -/
  | cdUnexpected
  deriving DecidableEq

variable {w : ℕ}

/-- `SampleACChannel`. -/
def Snoop.sample (sn : Snoop w) : Transaction where
  acaddr := (sn.acaddr.setWidth 32).setWidth 64
  acsnoop := sn.acsnoop.setWidth 8
  acprot := sn.acprot.setWidth 8

namespace Transaction

variable (c : Config) (tr : Transaction)

def setNumBeats (n : BitVec 32) : Transaction := { tr with numBeats := n }

def decnumBeats : Transaction := { tr with numBeats := tr.numBeats - 1 }

def done : Bool := decide (tr.numBeats = 0)

def setCrresp (r : BitVec 8) : Transaction := { tr with crresp := r }

def hasDatatransfer : Bool := tr.crresp.getLsbD 0

def passDirty : Bool := tr.crresp.getLsbD 2

def isShared : Bool := tr.crresp.getLsbD 3

/-- `ReadOnce`, `ReadShared`, `ReadClean`, `ReadNotSharedDirty`, `ReadUnique`, `CleanShared`, `CleanInvalid`, `MakeInvalid`,
`DVMComplete` and `DVMMessage`. -/
def checkAcsnoop : Bool := decide (tr.acsnoop ∈ [0x0, 0x1, 0x2, 0x3, 0x7, 0x8, 0x9, 0xd, 0xe, 0xf])

def checkAcaddr : Bool := decide (tr.acaddr.toNat / (c.cdDataW / 8) * (c.cdDataW / 8) = tr.acaddr.toNat)

/-- Not for `ReadUnique`, `CleanInvalid` and `MakeInvalid`. -/
def allowsIsShared : Bool := decide (tr.acsnoop ∉ [0x7, 0x9, 0xd])

def checkAcsignals : List Report :=
  (if tr.checkAcsnoop = true then [] else [.acsnoop]) ++ if tr.checkAcaddr c = true then [] else [.acaddr]

def checkCrsignals : List Report :=
  (if (tr.passDirty && !tr.hasDatatransfer) = true then [.passDirty] else []) ++
    if (tr.isShared && !tr.allowsIsShared) = true then [.isShared] else []

end Transaction

/-! ### The checker -/

/-- A transfer of one of the channels. -/
inductive Transfer (w : ℕ) where
  | ac (sn : Snoop w)
  | cr (crresp : BitVec 5)
  | cd (cdlast : Bool)
  deriving DecidableEq

/-- The signals at a clock edge. -/
structure Edge (w : ℕ) where
  acvalid : Bool := false
  acready : Bool := false
  ac : Snoop w
  crvalid : Bool := false
  crready : Bool := false
  crresp : BitVec 5 := 0
  cdvalid : Bool := false
  cdready : Bool := false
  cdlast : Bool := false

/-- The transfers of an edge, in the order in which they are looked at. -/
def Edge.transfers (e : Edge w) : List (Transfer w) :=
  (if (e.acvalid && e.acready) = true then [.ac e.ac] else []) ++ (if (e.crvalid && e.crready) = true then [.cr e.crresp] else []) ++
    if (e.cdvalid && e.cdready) = true then [.cd e.cdlast] else []

/-- The lists, and what was reported since the last reset, by the types of the messages. -/
structure Checker where
  crList : List Transaction := []
  cdList : List Transaction := []
  acReports : List Report := []
  crReports : List Report := []
  cdReports : List Report := []
  deriving DecidableEq

namespace Checker

variable (c : Config) (s : Checker)

/-- A snoop. -/
def ac (sn : Snoop w) : Checker :=
  if s.crList.length + s.cdList.length < c.maxDepth then
    { s with acReports := s.acReports ++ sn.sample.checkAcsignals c, crList := s.crList ++ [sn.sample] }
  else { s with acReports := s.acReports ++ [.maximum] }

/-- A response. -/
def cr (r : BitVec 5) : Checker :=
  match s.crList with
  | [] => { s with crReports := s.crReports ++ [.crUnexpected] }
  | tr :: crList =>
    let tr := tr.setCrresp (r.setWidth 8)
    let cdList := if tr.hasDatatransfer = true then s.cdList ++ [tr.setNumBeats (BitVec.ofNat 32 c.beats)] else s.cdList
    { s with crList, cdList, crReports := s.crReports ++ tr.checkCrsignals }

/-- A beat. -/
def cd (cdlast : Bool) : Checker :=
  match s.cdList with
  | [] => { s with cdReports := s.cdReports ++ [.cdUnexpected] }
  | tr :: cdList =>
    let tr := tr.decnumBeats
    if tr.done = true then { s with cdList, cdReports := s.cdReports ++ if cdlast = true then [] else [.cdlast] }
    else { s with cdList := tr :: cdList }

/-- What a transfer does. -/
def step : Transfer w → Checker
  | .ac sn => s.ac c sn
  | .cr r => s.cr c r
  | .cd cdlast => s.cd cdlast

variable {c s} {tr : Transaction} {rest : List Transaction}

theorem cr_nil (h : s.crList = []) (r : BitVec 5) : s.cr c r = { s with crReports := s.crReports ++ [.crUnexpected] } := by
  cases s
  cases h
  rfl

theorem cr_cons (h : s.crList = tr :: rest) (r : BitVec 5) :
    s.cr c r = { s with
      crList := rest
      cdList := s.cdList ++ if (tr.setCrresp (r.setWidth 8)).hasDatatransfer = true then
        [(tr.setCrresp (r.setWidth 8)).setNumBeats (BitVec.ofNat 32 c.beats)] else []
      crReports := s.crReports ++ (tr.setCrresp (r.setWidth 8)).checkCrsignals } := by
  cases s
  cases h
  unfold cr
  by_cases hd : (tr.setCrresp (r.setWidth 8)).hasDatatransfer = true
  · simp [hd]
  · simp [hd]

theorem cd_nil (h : s.cdList = []) (cdlast : Bool) : s.cd cdlast = { s with cdReports := s.cdReports ++ [.cdUnexpected] } := by
  cases s
  cases h
  rfl

theorem cd_done (h : s.cdList = tr :: rest) (hdone : tr.decnumBeats.done = true) (cdlast : Bool) :
    s.cd cdlast = { s with cdList := rest, cdReports := s.cdReports ++ if cdlast = true then [] else [.cdlast] } := by
  cases s
  cases h
  exact if_pos hdone

theorem cd_more (h : s.cdList = tr :: rest) (hdone : tr.decnumBeats.done = false) (cdlast : Bool) :
    s.cd cdlast = { s with cdList := tr.decnumBeats :: rest } := by
  cases s
  cases h
  exact if_neg (by simp [hdone])

end Checker

/-! ### What there is to be found -/

/-- The transfers since the last reset: the snoops, those that were answered with their answers, the lines of which all beats
came, and the beats of the next one; and what there was to be reported. -/
structure Ledger (w : ℕ) where
  snoops : List (Snoop w) := []
  answers : List (Snoop w × BitVec 5) := []
  lines : ℕ := 0
  beat : ℕ := 0
  crReports : List Report := []
  cdErrors : ℕ := 0
  deriving DecidableEq

/-- A response that announces beats. -/
def announces (c : Config) (a : Snoop w × BitVec 5) : Bool := a.2.getLsbD 0 && decide (0 < c.beats)

/-- A snoop with its response. -/
def answered (a : Snoop w × BitVec 5) : Transaction := a.1.sample.setCrresp (a.2.setWidth 8)

namespace Ledger

variable (c : Config) (l : Ledger w)

/-- The responses that announced a line. -/
def announced : List (Snoop w × BitVec 5) := l.answers.filter (announces c)

/-- The snoops that are not answered. -/
def unanswered : List (Snoop w) := l.snoops.drop l.answers.length

/-- The responses of which beats are owed. -/
def owed : List (Snoop w × BitVec 5) := (l.announced c).drop l.lines

/-- A snoop. -/
def ac (sn : Snoop w) : Ledger w := { l with snoops := l.snoops ++ [sn] }

/-- A response, which is of the first snoop that is not answered. -/
def cr (r : BitVec 5) : Ledger w :=
  match l.unanswered with
  | [] => { l with crReports := l.crReports ++ [.crUnexpected] }
  | sn :: _ => { l with answers := l.answers ++ [(sn, r)], crReports := l.crReports ++ (answered (sn, r)).checkCrsignals }

/-- A beat, of the first response that is owed beats. It is the last one by the number of the beats of a line. -/
def cd (cdlast : Bool) : Ledger w :=
  match l.owed c with
  | [] => { l with cdErrors := l.cdErrors + 1 }
  | _ :: _ =>
    let cdErrors := l.cdErrors + if cdlast = decide (l.beat + 1 = c.beats) then 0 else 1
    if l.beat + 1 = c.beats then { l with lines := l.lines + 1, beat := 0, cdErrors } else { l with beat := l.beat + 1, cdErrors }

/-- What a transfer adds. -/
def step : Transfer w → Ledger w
  | .ac sn => l.ac sn
  | .cr r => l.cr r
  | .cd cdlast => l.cd c cdlast

/-- The responses that are owed beats, with the beats that they are owed. -/
def owing : List Transaction :=
  ((l.owed c).map fun a => (answered a).setNumBeats (BitVec.ofNat 32 c.beats)).modifyHead
    fun tr => tr.setNumBeats (BitVec.ofNat 32 (c.beats - l.beat))

/-- What is asked of a transfer: a snoop comes below `max_depth`, a line has a beat, and `cdlast` is not asserted early. -/
def Clear : Transfer w → Prop
  | .ac _ => l.unanswered.length + (l.owed c).length < c.maxDepth
  | .cr r => l.unanswered ≠ [] → r.getLsbD 0 = true → 0 < c.beats
  | .cd cdlast => l.owed c ≠ [] → cdlast = true → l.beat + 1 = c.beats

instance (t : Transfer w) : Decidable (l.Clear c t) :=
  match t with
  | .ac _ => inferInstanceAs (Decidable (_ < _))
  | .cr _ => inferInstanceAs (Decidable (_ → _ → _))
  | .cd _ => inferInstanceAs (Decidable (_ → _ → _))

/-! ### What holds of the counts -/

/-- The counts are of what there is. -/
structure Wf (l : Ledger w) : Prop where
  answers : l.answers.length ≤ l.snoops.length
  lines : l.lines ≤ (l.announced c).length
  beat_lt : l.owed c ≠ [] → l.beat < c.beats
  beat_eq_zero : l.owed c = [] → l.beat = 0

variable {c l}

theorem unanswered_ac (h : l.Wf c) (sn : Snoop w) : (l.ac sn).unanswered = l.unanswered ++ [sn] := List.drop_append_of_le_length h.answers

theorem cr_nil (h : l.unanswered = []) (r : BitVec 5) : l.cr r = { l with crReports := l.crReports ++ [.crUnexpected] } := by
  unfold cr
  rw [h]

theorem cr_cons {sn : Snoop w} {rest : List (Snoop w)} (h : l.unanswered = sn :: rest) (r : BitVec 5) :
    l.cr r = { l with answers := l.answers ++ [(sn, r)], crReports := l.crReports ++ (answered (sn, r)).checkCrsignals } := by
  unfold cr
  rw [h]

theorem unanswered_cr {sn : Snoop w} {rest : List (Snoop w)} (h : l.unanswered = sn :: rest) (r : BitVec 5) : (l.cr r).unanswered = rest := by
  have htail : (l.cr r).unanswered = l.unanswered.tail := by
    rw [cr_cons h]
    simp [unanswered]
  rw [htail, h, List.tail_cons]

theorem announced_cr {sn : Snoop w} {rest : List (Snoop w)} (h : l.unanswered = sn :: rest) (r : BitVec 5) :
    (l.cr r).announced c = l.announced c ++ if announces c (sn, r) = true then [(sn, r)] else [] := by
  rw [cr_cons h, announced, announced, List.filter_append, List.filter_singleton]
  cases announces c (sn, r) <;> rfl

theorem owed_cr (hwf : l.Wf c) {sn : Snoop w} {rest : List (Snoop w)} (h : l.unanswered = sn :: rest) (r : BitVec 5) :
    (l.cr r).owed c = l.owed c ++ if announces c (sn, r) = true then [(sn, r)] else [] := by
  have hlines : (l.cr r).lines = l.lines := by rw [cr_cons h]
  rw [owed, announced_cr h, hlines, List.drop_append_of_le_length hwf.lines]
  rfl

theorem owing_cr (hwf : l.Wf c) {sn : Snoop w} {rest : List (Snoop w)} (h : l.unanswered = sn :: rest) (r : BitVec 5) :
    (l.cr r).owing c = l.owing c ++
      if announces c (sn, r) = true then [(answered (sn, r)).setNumBeats (BitVec.ofNat 32 c.beats)] else [] := by
  have hbeat : (l.cr r).beat = l.beat := by rw [cr_cons h]
  unfold owing
  rw [owed_cr hwf h, hbeat]
  cases ho : l.owed c with
  | nil =>
    rw [hwf.beat_eq_zero ho]
    cases announces c (sn, r) <;> simp [Transaction.setNumBeats]
  | cons a owed => cases announces c (sn, r) <;> simp

theorem owing_nil (h : l.owed c = []) : l.owing c = [] := by simp [owing, h]

theorem owing_cons {a : Snoop w × BitVec 5} {rest : List (Snoop w × BitVec 5)} (h : l.owed c = a :: rest) :
    l.owing c = (answered a).setNumBeats (BitVec.ofNat 32 (c.beats - l.beat)) ::
      rest.map fun a => (answered a).setNumBeats (BitVec.ofNat 32 c.beats) := by
  simp [owing, h, Transaction.setNumBeats]

/-- At the start of a line all of its beats are owed. -/
theorem owing_eq_map (h : l.beat = 0) : l.owing c = (l.owed c).map fun a => (answered a).setNumBeats (BitVec.ofNat 32 c.beats) := by
  cases ho : l.owed c with
  | nil => rw [owing_nil ho, List.map_nil]
  | cons a rest => rw [owing_cons ho, h, Nat.sub_zero, List.map_cons]

theorem cd_nil (h : l.owed c = []) (cdlast : Bool) : l.cd c cdlast = { l with cdErrors := l.cdErrors + 1 } := by
  unfold cd
  rw [h]

theorem cd_last {a : Snoop w × BitVec 5} {rest : List (Snoop w × BitVec 5)} (h : l.owed c = a :: rest) (hlast : l.beat + 1 = c.beats) (cdlast : Bool) :
    l.cd c cdlast = { l with lines := l.lines + 1, beat := 0, cdErrors := l.cdErrors + if cdlast = true then 0 else 1 } := by
  unfold cd
  rw [h]
  simp [hlast]

theorem cd_more {a : Snoop w × BitVec 5} {rest : List (Snoop w × BitVec 5)} (h : l.owed c = a :: rest) (hlast : l.beat + 1 ≠ c.beats) (cdlast : Bool) :
    l.cd c cdlast = { l with beat := l.beat + 1, cdErrors := l.cdErrors + if cdlast = true then 1 else 0 } := by
  unfold cd
  rw [h]
  cases cdlast <;> simp [hlast]

theorem owed_line {a : Snoop w × BitVec 5} {rest : List (Snoop w × BitVec 5)} (h : l.owed c = a :: rest) (cdErrors : ℕ) :
    { l with lines := l.lines + 1, beat := 0, cdErrors }.owed c = rest := by
  have htail : { l with lines := l.lines + 1, beat := 0, cdErrors }.owed c = (l.owed c).tail := List.tail_drop.symm
  rw [htail, h, List.tail_cons]

theorem Wf.step (h : l.Wf c) (t : Transfer w) : (l.step c t).Wf c := by
  cases t with
  | ac sn => exact ⟨h.answers.trans (by simp [Ledger.step, ac]), h.lines, h.beat_lt, h.beat_eq_zero⟩
  | cr r =>
    change (l.cr r).Wf c
    cases hu : l.unanswered with
    | nil =>
      rw [cr_nil hu]
      exact ⟨h.answers, h.lines, h.beat_lt, h.beat_eq_zero⟩
    | cons sn rest =>
      have hlt : l.answers.length < l.snoops.length := by
        by_contra hle
        rw [unanswered, List.drop_eq_nil_of_le (not_lt.1 hle)] at hu
        cases hu
      have hbeat : (l.cr r).beat = l.beat := by rw [cr_cons hu]
      refine ⟨?_, ?_, fun hne => ?_, fun hnil => ?_⟩
      · rw [cr_cons hu]
        simpa using Nat.succ_le_of_lt hlt
      · rw [announced_cr hu, List.length_append, cr_cons hu]
        exact h.lines.trans (Nat.le_add_right _ _)
      · rw [owed_cr h hu] at hne
        rw [hbeat]
        by_cases ho : l.owed c = []
        · -- the response is the first that is owed beats
          rw [ho, List.nil_append] at hne
          have ha : announces c (sn, r) = true := by_contra fun hno => hne (if_neg hno)
          rw [h.beat_eq_zero ho]
          exact of_decide_eq_true (Bool.and_eq_true_iff.1 ha).2
        · exact h.beat_lt ho
      · rw [owed_cr h hu] at hnil
        rw [hbeat]
        exact h.beat_eq_zero (List.append_eq_nil_iff.1 hnil).1
  | cd cdlast =>
    change (l.cd c cdlast).Wf c
    cases ho : l.owed c with
    | nil =>
      rw [cd_nil ho]
      exact ⟨h.answers, h.lines, h.beat_lt, h.beat_eq_zero⟩
    | cons a rest =>
      have hlt := h.beat_lt (by simp [ho])
      by_cases hlast : l.beat + 1 = c.beats
      · have hlines : l.lines < (l.announced c).length := by
          by_contra hle
          rw [owed, List.drop_eq_nil_of_le (not_lt.1 hle)] at ho
          cases ho
        rw [cd_last ho hlast]
        exact ⟨h.answers, hlines, fun _ => Nat.lt_of_le_of_lt (Nat.zero_le _) hlt, fun _ => rfl⟩
      · rw [cd_more ho hlast]
        refine ⟨h.answers, h.lines, fun _ => lt_of_le_of_ne hlt hlast, fun hnil => ?_⟩
        cases ho.symm.trans hnil

end Ledger

/-! ### The run -/

/-- The checker, and the ledger. -/
structure State (w : ℕ) where
  checker : Checker := {}
  ledger : Ledger w := {}
  deriving DecidableEq

namespace State

variable (c : Config) (s : State w)

/-- A transfer, or without one a reset until it is released. -/
def step (s : State w) : Option (Transfer w) → Option (State w)
  | none => some {}
  | some t => some { checker := s.checker.step c t, ledger := s.ledger.step c t }

/-- The transfers of the edges of a run, or without an edge a reset. -/
def transfers (es : List (Option (Edge w))) : List (Option (Transfer w)) :=
  es.flatMap fun e? => e?.elim [none] fun e => e.transfers.map some

/-- The lists are what is not answered and what is owed, and the reports are those that there were to be. -/
structure Good (s : State w) : Prop where
  crList : s.checker.crList = s.ledger.unanswered.map Snoop.sample
  cdList : s.checker.cdList = s.ledger.owing c
  crReports : s.checker.crReports = s.ledger.crReports
  cdReports : s.checker.cdReports.length = s.ledger.cdErrors

/-- After the step it is so. -/
def GoodAfter (s : State w) (t? : Option (Transfer w)) : Prop := ∀ s', s.step c t? = some s' → s'.Good c

/-- What is asked of a step. -/
def ClearStep (s : State w) (t? : Option (Transfer w)) : Prop := ∀ t ∈ t?, s.ledger.Clear c t

instance (t? : Option (Transfer w)) : Decidable (s.ClearStep c t?) := inferInstanceAs (Decidable (∀ t ∈ t?, _))

variable {c s}

/-- A snoop is kept below `max_depth`. -/
theorem good_ac_iff (hwf : s.ledger.Wf c) (h : s.Good c) (sn : Snoop w) :
    Good c { checker := s.checker.ac c sn, ledger := s.ledger.ac sn } ↔ s.ledger.Clear c (.ac sn) := by
  have hlen : s.checker.crList.length + s.checker.cdList.length = s.ledger.unanswered.length + (s.ledger.owed c).length := by
    rw [h.crList, h.cdList, Ledger.owing]
    simp
  unfold Checker.ac
  rw [hlen]
  by_cases hd : s.ledger.unanswered.length + (s.ledger.owed c).length < c.maxDepth
  · rw [if_pos hd]
    refine iff_of_true ⟨?_, h.cdList, h.crReports, h.cdReports⟩ hd
    rw [Ledger.unanswered_ac hwf, List.map_append, ← h.crList]
    rfl
  · rw [if_neg hd]
    refine iff_of_false (fun hgood => ?_) hd
    have hlen' := congrArg List.length hgood.crList
    rw [Ledger.unanswered_ac hwf] at hlen'
    simp [h.crList] at hlen'

/-- A response is of the first snoop that is not answered, and is owed beats if a line has any. -/
theorem good_cr_iff (hwf : s.ledger.Wf c) (h : s.Good c) (r : BitVec 5) :
    Good c { checker := s.checker.cr c r, ledger := s.ledger.cr r } ↔ s.ledger.Clear c (.cr r) := by
  have hcr := h.crList
  unfold Ledger.Clear
  cases hu : s.ledger.unanswered with
  | nil =>
    rw [hu, List.map_nil] at hcr
    rw [Checker.cr_nil hcr, Ledger.cr_nil hu]
    exact iff_of_true ⟨h.crList, h.cdList, congrArg (· ++ _) h.crReports, h.cdReports⟩ fun hne => absurd rfl hne
  | cons sn rest =>
    rw [hu, List.map_cons] at hcr
    have hdata : (sn.sample.setCrresp (r.setWidth 8)).hasDatatransfer = r.getLsbD 0 := by
      simp [Transaction.hasDatatransfer, Transaction.setCrresp]
    rw [Checker.cr_cons hcr, hdata]
    constructor
    · intro hgood _ hr
      have hcd := hgood.cdList
      rw [Ledger.owing_cr hwf hu, ← h.cdList] at hcd
      by_contra hpos
      simp [hr, announces, hpos] at hcd
    · intro hclear
      refine ⟨?_, ?_, ?_, ?_⟩
      · rw [Ledger.unanswered_cr hu]
      · have ha : announces c (sn, r) = r.getLsbD 0 := by
          cases hr : r.getLsbD 0 with
          | true => simp [announces, hr, hclear (by simp) hr]
          | false => simp only [announces, hr, Bool.false_and]
        rw [Ledger.owing_cr hwf hu, ha, ← h.cdList]
        rfl
      · rw [Ledger.cr_cons hu, h.crReports]
        rfl
      · rw [Ledger.cr_cons hu]
        exact h.cdReports

theorem decnumBeats_eq {tr : Transaction} {beat : ℕ} (hlt : beat < c.beats) :
    (tr.setNumBeats (BitVec.ofNat 32 (c.beats - beat))).decnumBeats = tr.setNumBeats (BitVec.ofNat 32 (c.beats - (beat + 1))) := by
  have hbits : BitVec.ofNat 32 (c.beats - beat) - 1 = BitVec.ofNat 32 (c.beats - (beat + 1)) := by
    rw [show c.beats - beat = c.beats - (beat + 1) + 1 by omega, BitVec.ofNat_add]
    exact BitVec.add_sub_cancel _ _
  exact congrArg tr.setNumBeats hbits

/-- The count of the first transaction comes to its end with the line. -/
theorem done_iff {tr : Transaction} {beat : ℕ} (hlt : beat < c.beats) :
    (tr.setNumBeats (BitVec.ofNat 32 (c.beats - beat))).decnumBeats.done = decide (beat + 1 = c.beats) := by
  have hbound := c.beats_lt
  have hiff : BitVec.ofNat 32 (c.beats - (beat + 1)) = 0 ↔ beat + 1 = c.beats := by
    rw [← BitVec.toNat_inj, BitVec.toNat_ofNat, Nat.mod_eq_of_lt (by omega)]
    change c.beats - (beat + 1) = 0 ↔ _
    omega
  rw [decnumBeats_eq hlt]
  exact decide_eq_decide.2 hiff

/-- A beat is of the first response that is owed beats, and is found wrong but if `cdlast` is early. -/
theorem good_cd_iff (hwf : s.ledger.Wf c) (h : s.Good c) (cdlast : Bool) :
    Good c { checker := s.checker.cd cdlast, ledger := s.ledger.cd c cdlast } ↔ s.ledger.Clear c (.cd cdlast) := by
  have hcd := h.cdList
  unfold Ledger.Clear
  cases ho : s.ledger.owed c with
  | nil =>
    rw [Ledger.owing_nil ho] at hcd
    rw [Checker.cd_nil hcd, Ledger.cd_nil ho]
    refine iff_of_true ⟨h.crList, h.cdList, h.crReports, ?_⟩ fun hne => absurd rfl hne
    rw [List.length_append, h.cdReports]
    rfl
  | cons a rest =>
    have hlt := hwf.beat_lt (by simp [ho])
    rw [Ledger.owing_cons ho] at hcd
    have hdone := @done_iff _ (answered a) _ hlt
    by_cases hlast : s.ledger.beat + 1 = c.beats
    · rw [decide_eq_true hlast] at hdone
      rw [Checker.cd_done hcd hdone, Ledger.cd_last ho hlast]
      refine iff_of_true ⟨h.crList, ?_, h.crReports, ?_⟩ fun _ _ => hlast
      · rw [Ledger.owing_eq_map rfl, Ledger.owed_line ho]
      · rw [List.length_append, h.cdReports]
        cases cdlast <;> rfl
    · rw [decide_eq_false hlast] at hdone
      rw [Checker.cd_more hcd hdone, Ledger.cd_more ho hlast]
      constructor
      · intro hgood _ hc
        have hcount := hgood.cdReports
        rw [hc] at hcount
        simp [h.cdReports] at hcount
      · intro hclear
        have hc : cdlast = false := Bool.eq_false_iff.2 fun hc => hlast (hclear (by simp) hc)
        refine ⟨h.crList, ?_, h.crReports, ?_⟩
        · have howed : { s.ledger with beat := s.ledger.beat + 1, cdErrors := s.ledger.cdErrors + if cdlast = true then 1 else 0 }.owed c =
              a :: rest := ho
          rw [Ledger.owing_cons howed, decnumBeats_eq hlt]
        · rw [hc]
          exact h.cdReports

/-- What the checker makes of a transfer is right exactly if the transfer is clear. -/
theorem good_step_iff (hwf : s.ledger.Wf c) (h : s.Good c) (t : Transfer w) :
    Good c { checker := s.checker.step c t, ledger := s.ledger.step c t } ↔ s.ledger.Clear c t := by
  cases t with
  | ac sn => exact good_ac_iff hwf h sn
  | cr r => exact good_cr_iff hwf h r
  | cd cdlast => exact good_cd_iff hwf h cdlast

theorem wf_init : ({} : Ledger w).Wf c := ⟨le_rfl, Nat.zero_le _, fun hne => absurd rfl hne, fun _ => rfl⟩

theorem good_init : ({} : State w).Good c := ⟨rfl, rfl, rfl, rfl⟩

/-- **In every run responses and beats are matched to the oldest that wait for them and what is wrong with the beats is reported,
exactly if snoops come below `max_depth`, a line that is announced has a beat, and `cdlast` is never early.** -/
theorem runOk_snoops_iff (es : List (Option (Edge w))) :
    RunOk (step c) (GoodAfter c) ({} : State w) (transfers es) ↔ RunOk (step c) (ClearStep c) ({} : State w) (transfers es) := by
  refine runOk_congr_of_ok (I := fun s => s.ledger.Wf c ∧ s.Good c) (fun {s s' t?} h hgood hs => ?_) (fun {s t?} h => ?_) ⟨wf_init, good_init⟩
  · refine ⟨?_, hgood _ hs⟩
    cases t? with
    | none =>
      cases hs
      exact wf_init
    | some t =>
      cases hs
      exact h.1.step t
  · cases t? with
    | none => exact iff_of_true (by rintro _ ⟨⟩; exact good_init) (fun _ => nofun)
    | some t => simpa [GoodAfter, ClearStep, step] using good_step_iff h.1 h.2 t

/-- Lines of two beats of 128 bits. -/
def twoBeats : Config := { maxDepth := 64, cachelineSz := 32, cdDataW := 128 }

/-- A snoop that is answered with a line, both beats of which are marked as the last one. -/
def earlyLast : List (Option (Edge 64)) :=
  [some { acvalid := true, acready := true, ac := ⟨0x100000040, 1, 0⟩ },
    some { ac := ⟨0, 0, 0⟩, crvalid := true, crready := true, crresp := 1 },
    some { ac := ⟨0, 0, 0⟩, cdvalid := true, cdready := true, cdlast := true },
    some { ac := ⟨0, 0, 0⟩, cdvalid := true, cdready := true, cdlast := true }]

/-- Nothing is reported of it. -/
theorem not_runOk_snoops :
    ¬RunOk (step twoBeats) (GoodAfter twoBeats) ({} : State 64) (transfers earlyLast) ∧
      (run (step twoBeats) {} (transfers earlyLast)).any (fun s => s.checker.cdReports = []) = true := by
  refine ⟨?_, by decide⟩
  rintro ⟨-, hrest⟩
  have hcd := ((((hrest _ rfl).2 _ rfl).2 _ rfl).1 _ rfl).cdReports
  revert hcd
  decide

end State

end LibSystemCTLM.Ace.SnoopChannelChecker
