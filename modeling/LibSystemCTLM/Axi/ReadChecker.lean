import LibSystemCTLM.Foundation.FirstMatch
import LibSystemCTLM.Foundation.Runs
import Mathlib.Data.BitVec

/-!
# The checkers of the order of read data

`check_rd_tx` in `checker-axi.h` and `checker_ace_rd_tx` in `checker-ace.h` keep the read addresses that are accepted,
charge each beat to the first of them that has its ID, and compare `rlast` with the beats that this one is owed. They
differ in three places (`Kind`): the one for ACE takes IDs in an `uint8_t`, knows transactions that have a single beat
whatever their length, and reports an address for which there is no room.

The ledger beside them compares the IDs themselves. A checker agrees with it, step by step, exactly if there is room for
each address, the search by the ID that was kept finds what the search by the ID finds, and no transaction of a single
beat gets another one (`runOk_reads_iff`).

## The model

At an edge an address is looked at before a beat (`Edge.transfers`), and a step is one transfer, or a reset. Addresses are
numbered, and `charged`, which is no variable of the source, lists the transactions that the beats were charged to.

## Honest scope

`en_rd_order_check` and `en_rd_tx_check` are set. What else is checked of an address or of `rresp`, which changes no list,
is left out. A transaction of a single beat is what `HasSingleRdDataTransfer` takes for one. No transaction gets as many
beats too many as an `int` counts below zero.
-/

namespace LibSystemCTLM.Axi.ReadChecker

open Foundation

/-- The checker. -/
inductive Kind where
  | axi | ace
  deriving DecidableEq

/-- `HasSingleRdDataTransfer` of `ace_helpers`: `CleanUnique`, `CleanInvalid`, `CleanShared`, `MakeInvalid` and `MakeUnique` of a shareable
domain, barriers, and `DVMComplete` and `DVMMessage` of a shareable domain. -/
def hasSingleRdDataTransfer (axDomain axSnoop axBar : BitVec 8) : Bool :=
  decide (axSnoop ∈ [0xb, 0x9, 0x8, 0xd, 0xc] ∧ axDomain ∈ [1, 2]) || decide (0 < axBar) || decide (axSnoop ∈ [0xe, 0xf] ∧ axDomain ∈ [1, 2])

/-- The read address channel. -/
structure Address (w : ℕ) where
  arid : BitVec w
  arlen : BitVec 8
  arsnoop : BitVec 4 := 0
  ardomain : BitVec 2 := 0
  arbar : BitVec 2 := 0
  deriving DecidableEq

/-- `Transaction`. -/
structure Transaction where
  number : ℕ
  axID : BitVec 32
  axLen : BitVec 32
  axSnoop : BitVec 8
  axDomain : BitVec 8
  axBar : BitVec 8
  numBeats : ℤ
  deriving DecidableEq

/-- What is reported. -/
inductive Report where
  /-- "Wrongly ordered transaction identified", with an unexpected burst length. -/
  | wrongOrder
  /-- "Unexpected transaction id on read response channel" -/
  | unexpectedId (id : BitVec 32)
  /-- "Maximum outstanding transactions reached" -/
  | maximum
  deriving DecidableEq

variable {w : ℕ}

namespace Kind

variable (k : Kind)

/-- The ID that the constructor of `Transaction` is given. -/
def axID (id : BitVec 32) : BitVec 32 :=
  match k with
  | .axi => id
  | .ace => (id.setWidth 8).setWidth 32

/-- The transactions of a single beat. -/
def single (axDomain axSnoop axBar : BitVec 8) : Bool :=
  match k with
  | .axi => false
  | .ace => hasSingleRdDataTransfer axDomain axSnoop axBar

/-- What is reported of an address for which there is no room. -/
def full : List Report :=
  match k with
  | .axi => []
  | .ace => [.maximum]

/-- `SampleARSignals`. -/
def sample (number : ℕ) (a : Address w) : Transaction where
  number := number
  axID := k.axID (a.arid.setWidth 32)
  axLen := a.arlen.setWidth 32
  axSnoop := a.arsnoop.setWidth 8
  axDomain := a.ardomain.setWidth 8
  axBar := a.arbar.setWidth 8
  numBeats := a.arlen.toNat + 1

end Kind

namespace Transaction

variable (k : Kind) (t : Transaction)

def hasSingleRdDataTransfer : Bool := k.single t.axDomain t.axSnoop t.axBar

def decNumBeats : Transaction := { t with numBeats := t.numBeats - 1 }

/-- `DecNumBeats`, but for a single data transfer. -/
def beat : Transaction := if t.hasSingleRdDataTransfer k = true then t else t.decNumBeats

/-- `Done`; there is none where its assertion fails. -/
def done : Option Bool :=
  if t.hasSingleRdDataTransfer k = true then if t.numBeats = t.axLen.toNat + 1 then some true else none
  else some (decide (t.numBeats = 0))

end Transaction

/-- A transfer of one of the channels. -/
inductive Transfer (w : ℕ) where
  | ar (a : Address w)
  | r (rid : BitVec w) (rlast : Bool)
  deriving DecidableEq

/-- The signals at a clock edge. -/
structure Edge (w : ℕ) where
  arvalid : Bool
  arready : Bool
  ar : Address w
  rvalid : Bool
  rready : Bool
  rid : BitVec w
  rlast : Bool

/-- The transfers of an edge, in the order in which they are looked at. -/
def Edge.transfers (e : Edge w) : List (Transfer w) :=
  (if (e.arvalid && e.arready) = true then [.ar e.ar] else []) ++ if (e.rvalid && e.rready) = true then [.r e.rid e.rlast] else []

/-! ### The checker -/

/-- `m_rtList`, and what was accepted, charged and reported since the last reset. -/
structure Checker where
  rtList : List Transaction := []
  accepted : ℕ := 0
  charged : List (Option ℕ) := []
  reports : List Report := []
  deriving DecidableEq

namespace Checker

variable (k : Kind) (maxDepth : ℕ) (s : Checker)

/-- An address. -/
def ar (a : Address w) : Checker :=
  if s.rtList.length < maxDepth then { s with rtList := s.rtList ++ [k.sample s.accepted a], accepted := s.accepted + 1 }
  else { s with accepted := s.accepted + 1, reports := s.reports ++ k.full }

/-- `GetFirst`. -/
def getFirst (id : BitVec 32) : Option Transaction := s.rtList.find? fun t => decide (t.axID = id)

/-- A beat. -/
def r (rid : BitVec w) (rlast : Bool) : Option Checker :=
  match s.getFirst (rid.setWidth 32) with
  | none => some { s with reports := s.reports ++ [.unexpectedId (rid.setWidth 32)], charged := s.charged ++ [none] }
  | some rt =>
    ((rt.beat k).done k).map fun done =>
      { s with
        rtList := updateFirst (fun t => decide (t.axID = rid.setWidth 32)) (fun t => if rlast = true then none else some (t.beat k)) s.rtList
        charged := s.charged ++ [some rt.number]
        reports := s.reports ++ if rlast = done then [] else [.wrongOrder] }

/-- What a transfer does. -/
def step : Transfer w → Option Checker
  | .ar a => some (s.ar k maxDepth a)
  | .r rid rlast => s.r k rid rlast

end Checker

/-! ### What there is to be found -/

/-- A transaction that is not over, and the beats that it got. -/
structure Entry (w : ℕ) where
  number : ℕ
  address : Address w
  taken : ℕ := 0
  deriving DecidableEq

/-- What is not over, and what was accepted, charged and to be reported since the last reset. -/
structure Ledger (w : ℕ) where
  outstanding : List (Entry w) := []
  accepted : ℕ := 0
  charged : List (Option ℕ) := []
  reports : List Report := []
  deriving DecidableEq

/-- A transaction of a single beat. -/
def Entry.single (k : Kind) (e : Entry w) : Bool := k.single (e.address.ardomain.setWidth 8) (e.address.arsnoop.setWidth 8) (e.address.arbar.setWidth 8)

/-- The beats of a transaction. -/
def Entry.beats (k : Kind) (e : Entry w) : ℕ := if e.single k = true then 1 else e.address.arlen.toNat + 1

/-- One more beat. -/
def Entry.beat (e : Entry w) : Entry w := { e with taken := e.taken + 1 }

namespace Ledger

variable (k : Kind) (maxDepth : ℕ) (l : Ledger w)

/-- An address. -/
def ar (a : Address w) : Ledger w :=
  { l with outstanding := l.outstanding ++ [{ number := l.accepted, address := a }], accepted := l.accepted + 1 }

/-- The oldest transaction of an ID. -/
def oldest (rid : BitVec w) : Option (Entry w) := l.outstanding.find? fun e => decide (e.address.arid = rid)

/-- A beat, of the oldest transaction of its ID. `rlast` is of the last of its beats, and ends it. -/
def r (rid : BitVec w) (rlast : Bool) : Ledger w :=
  match l.oldest rid with
  | none => { l with reports := l.reports ++ [.unexpectedId (rid.setWidth 32)], charged := l.charged ++ [none] }
  | some e =>
    { l with
      outstanding := updateFirst (fun e => decide (e.address.arid = rid)) (fun e => if rlast = true then none else some e.beat) l.outstanding
      charged := l.charged ++ [some e.number]
      reports := l.reports ++ if rlast = decide (e.taken + 1 = e.beats k) then [] else [.wrongOrder] }

/-- What a transfer adds. -/
def step : Transfer w → Ledger w
  | .ar a => l.ar a
  | .r rid rlast => l.r k rid rlast

/-- The oldest transaction of which the ID that was kept is that of a beat. -/
def oldestKept (rid : BitVec w) : Option (Entry w) :=
  l.outstanding.find? fun e => decide (k.axID (e.address.arid.setWidth 32) = rid.setWidth 32)

/-- What is asked of a transfer: there is room for an address, and a beat is found the right transaction, of which it is not
the second beat where there is a single one. -/
def Clear : Transfer w → Prop
  | .ar _ => l.outstanding.length < maxDepth
  | .r rid _ => l.oldestKept k rid = l.oldest rid ∧ ∀ e ∈ l.oldest rid, e.single k = true → e.taken = 0

instance (t : Transfer w) : Decidable (l.Clear k maxDepth t) :=
  match t with
  | .ar _ => inferInstanceAs (Decidable (_ < _))
  | .r _ _ => inferInstanceAs (Decidable (_ ∧ ∀ e ∈ _, _))

theorem oldestKept_eq (hid : ∀ a b : BitVec w, k.axID (a.setWidth 32) = b.setWidth 32 ↔ a = b) (rid : BitVec w) : l.oldestKept k rid = l.oldest rid := by
  unfold oldestKept oldest
  simp only [hid]

/-- The IDs of an `uint32_t` are told apart by the checker for AXI. -/
theorem oldestKept_axi (hw : w ≤ 32) (rid : BitVec w) : l.oldestKept .axi rid = l.oldest rid :=
  oldestKept_eq .axi l (fun a b => by
    have hlt : 2 ^ w ≤ 2 ^ 32 := Nat.pow_le_pow_right (by decide) hw
    have hmod : ∀ x : BitVec w, (x.setWidth 32).toNat = x.toNat := fun x => by
      rw [BitVec.toNat_setWidth, Nat.mod_eq_of_lt (x.isLt.trans_le hlt)]
    rw [Kind.axID, ← BitVec.toNat_inj, hmod, hmod, BitVec.toNat_inj]) rid

/-- The IDs of an `uint8_t` are told apart by the checker for ACE. -/
theorem oldestKept_ace (hw : w ≤ 8) (rid : BitVec w) : l.oldestKept .ace rid = l.oldest rid :=
  oldestKept_eq .ace l (fun a b => by
    have hlt : 2 ^ w ≤ 2 ^ 8 := Nat.pow_le_pow_right (by decide) hw
    have ha : a.toNat < 2 ^ 8 := a.isLt.trans_le hlt
    have hb : b.toNat < 2 ^ 8 := b.isLt.trans_le hlt
    rw [Kind.axID, ← BitVec.toNat_inj, ← BitVec.toNat_inj]
    simp only [BitVec.toNat_setWidth]
    omega) rid

/-- The numbers are of the addresses that were accepted. -/
structure Wf (l : Ledger w) : Prop where
  nodup : (l.outstanding.map Entry.number).Nodup
  lt : ∀ e ∈ l.outstanding, e.number < l.accepted

variable {k l}

theorem wf_init : ({} : Ledger w).Wf := ⟨List.nodup_nil, fun _ => nofun⟩

theorem Wf.ar (h : l.Wf) (a : Address w) : (l.ar a).Wf := by
  refine ⟨?_, fun e he => ?_⟩
  · rw [Ledger.ar, List.map_append]
    refine h.nodup.append (List.nodup_singleton _) (List.disjoint_singleton.2 fun hmem => ?_)
    obtain ⟨e, he, hnum⟩ := List.mem_map.1 hmem
    exact (h.lt e he).ne hnum
  · obtain hold | hnew := List.mem_append.1 he
    · exact (h.lt e hold).trans (Nat.lt_succ_self _)
    · rw [List.mem_singleton.1 hnew]
      exact Nat.lt_succ_self _

theorem Wf.r (h : l.Wf) (rid : BitVec w) (rlast : Bool) : (l.r k rid rlast).Wf := by
  unfold Ledger.r
  split
  · exact ⟨h.nodup, h.lt⟩
  · have hsub : ((updateFirst (fun e : Entry w => decide (e.address.arid = rid)) (fun e => if rlast = true then none else some e.beat)
        l.outstanding).map Entry.number).Sublist (l.outstanding.map Entry.number) := by
      refine map_updateFirst_sublist fun e b hb => ?_
      cases rlast with
      | true => cases hb
      | false =>
        cases hb
        rfl
    refine ⟨h.nodup.sublist hsub, fun e he => ?_⟩
    obtain ⟨e', he', hnum⟩ := List.mem_map.1 (hsub.subset (List.mem_map_of_mem he))
    exact hnum ▸ h.lt e' he'

end Ledger

/-- What is kept of a transaction that is not over. -/
def kept (k : Kind) (e : Entry w) : Transaction :=
  { k.sample e.number e.address with
    numBeats := if e.single k = true then e.address.arlen.toNat + 1 else e.address.arlen.toNat + 1 - e.taken }

section Kept

variable {k : Kind} {e : Entry w}

theorem hasSingle_kept : (kept k e).hasSingleRdDataTransfer k = e.single k := rfl

theorem beat_kept : (kept k e).beat k = kept k e.beat := by
  unfold Transaction.beat
  rw [hasSingle_kept]
  cases hs : e.single k with
  | true =>
    have hs' : e.beat.single k = true := hs
    rw [if_pos rfl, kept, kept, if_pos hs, if_pos hs']
    rfl
  | false =>
    have hs' : e.beat.single k = false := hs
    rw [if_neg Bool.false_ne_true, kept, kept, if_neg (by simp [hs]), if_neg (by simp [hs'])]
    simp only [Transaction.decNumBeats, Entry.beat, Nat.cast_add, Nat.cast_one, Int.sub_sub]

/-- The assertion does not fail, and what it asserts does not look at the beats. -/
theorem done_kept : (kept k e).done k = some (if e.single k = true then true else decide (e.taken = e.address.arlen.toNat + 1)) := by
  have hlen : (e.address.arlen.setWidth 32).toNat = e.address.arlen.toNat := by
    rw [BitVec.toNat_setWidth]
    omega
  unfold Transaction.done
  rw [hasSingle_kept]
  cases hs : e.single k with
  | true =>
    rw [if_pos rfl, if_pos rfl, if_pos]
    rw [kept, if_pos hs]
    change ((e.address.arlen.toNat : ℤ) + 1) = ((e.address.arlen.setWidth 32).toNat : ℤ) + 1
    rw [hlen]
  | false =>
    rw [if_neg Bool.false_ne_true, if_neg Bool.false_ne_true, kept, if_neg (by simp [hs])]
    congr 1
    rw [decide_eq_decide]
    change (e.address.arlen.toNat : ℤ) + 1 - (e.taken : ℤ) = 0 ↔ e.taken = e.address.arlen.toNat + 1
    omega

/-- Of a new transaction all beats are owed. -/
theorem kept_new (number : ℕ) (a : Address w) : kept k { number, address := a } = k.sample number a := by
  unfold kept
  split
  · rfl
  · simp only [Nat.cast_zero, Int.sub_zero]
    rfl

end Kept

/-! ### The run -/

/-- A checker, and the ledger. -/
structure State (w : ℕ) where
  checker : Checker := {}
  ledger : Ledger w := {}
  deriving DecidableEq

namespace State

variable (k : Kind) (maxDepth : ℕ) (s : State w)

/-- A transfer, or without one a reset until it is released. -/
def step (s : State w) : Option (Transfer w) → Option (State w)
  | none => some {}
  | some t => (s.checker.step k maxDepth t).map fun checker => { checker, ledger := s.ledger.step k t }

/-- The transfers of the edges of a run, or without an edge a reset. -/
def transfers (es : List (Option (Edge w))) : List (Option (Transfer w)) :=
  es.flatMap fun e? => e?.elim [none] fun e => e.transfers.map some

/-- The list is what is not over, the beats were charged to the oldest of their IDs, and the reports are those that there were to be. -/
structure Good (s : State w) : Prop where
  rtList : s.checker.rtList = s.ledger.outstanding.map (kept k)
  accepted : s.checker.accepted = s.ledger.accepted
  charged : s.checker.charged = s.ledger.charged
  reports : s.checker.reports = s.ledger.reports

/-- No assertion fails, and after the step it is so. -/
def GoodAfter (s : State w) (t? : Option (Transfer w)) : Prop := ∃ s', s.step k maxDepth t? = some s' ∧ s'.Good k

/-- What is asked of a step. -/
def ClearStep (s : State w) (t? : Option (Transfer w)) : Prop := ∀ t ∈ t?, s.ledger.Clear k maxDepth t

instance (t? : Option (Transfer w)) : Decidable (s.ClearStep k maxDepth t?) := inferInstanceAs (Decidable (∀ t ∈ t?, _))

variable {k maxDepth s}

/-- An address is kept if there is room for it. -/
theorem good_ar_iff (h : s.Good k) (a : Address w) :
    Good k { checker := s.checker.ar k maxDepth a, ledger := s.ledger.ar a } ↔ s.ledger.Clear k maxDepth (.ar a) := by
  have hlen : s.checker.rtList.length = s.ledger.outstanding.length := by rw [h.rtList, List.length_map]
  have hacc := h.accepted
  unfold Checker.ar Ledger.Clear
  rw [hlen]
  by_cases hd : s.ledger.outstanding.length < maxDepth
  · rw [if_pos hd]
    refine iff_of_true ⟨?_, congrArg (· + 1) hacc, h.charged, h.reports⟩ hd
    rw [Ledger.ar, List.map_append, List.map_singleton, kept_new, ← h.rtList, hacc]
  · rw [if_neg hd]
    refine iff_of_false (fun hgood => ?_) hd
    have hlen' := congrArg List.length hgood.rtList
    simp [Ledger.ar, hlen] at hlen'

/-- The reports of a beat are the same exactly if it is not the second one where there is a single one. -/
theorem report_eq_iff (e : Entry w) (rlast : Bool) :
    ((if rlast = (if e.beat.single k = true then true else decide (e.beat.taken = e.beat.address.arlen.toNat + 1)) then [] else [Report.wrongOrder]) =
      if rlast = decide (e.taken + 1 = e.beats k) then [] else [.wrongOrder]) ↔ (e.single k = true → e.taken = 0) := by
  have hsingle : e.beat.single k = e.single k := rfl
  rw [hsingle, Entry.beats]
  cases hs : e.single k with
  | true =>
    by_cases ht : e.taken = 0
    · simp [ht]
    · cases rlast <;> simp [ht]
  | false => exact iff_of_true rfl nofun

theorem getFirst_eq (h : s.Good k) (rid : BitVec w) : s.checker.getFirst (rid.setWidth 32) = (s.ledger.oldestKept k rid).map (kept k) := by
  rw [Checker.getFirst, h.rtList, List.find?_map]
  rfl

/-- A beat of a transaction that both find. -/
theorem good_found_iff (h : s.Good k) {rid : BitVec w} (heq : s.ledger.oldestKept k rid = s.ledger.oldest rid) {e : Entry w}
    (he : s.ledger.oldest rid = some e) (rlast : Bool) :
    (∃ checker, s.checker.r k rid rlast = some checker ∧ Good k { checker, ledger := s.ledger.r k rid rlast }) ↔
      (e.single k = true → e.taken = 0) := by
  have hfound : s.checker.getFirst (rid.setWidth 32) = some (kept k e) := by rw [getFirst_eq h, heq, he, Option.map_some]
  have hlist : updateFirst (fun t : Transaction => decide (t.axID = rid.setWidth 32)) (fun t => if rlast = true then none else some (t.beat k))
      s.checker.rtList = (updateFirst (fun e : Entry w => decide (e.address.arid = rid)) (fun e => if rlast = true then none else some e.beat)
        s.ledger.outstanding).map (kept k) := by
    rw [h.rtList, ← updateFirst_congr heq]
    refine updateFirst_map fun e _ => ?_
    cases rlast with
    | true => rfl
    | false => exact congrArg some beat_kept
  unfold Checker.r Ledger.r
  simp only [hfound, he, beat_kept, done_kept, Option.map_some, Option.some.injEq, exists_eq_left', hlist]
  rw [← report_eq_iff e rlast]
  constructor
  · intro hgood
    have hreports := hgood.reports
    rw [h.reports] at hreports
    exact List.append_cancel_left hreports
  · intro heq'
    refine ⟨rfl, h.accepted, ?_, ?_⟩
    · rw [h.charged]
      rfl
    · rw [h.reports, heq']

/-- A beat of which neither finds a transaction. -/
theorem good_unknown (h : s.Good k) {rid : BitVec w} (heq : s.ledger.oldestKept k rid = none) (hnone : s.ledger.oldest rid = none) (rlast : Bool) :
    ∃ checker, s.checker.r k rid rlast = some checker ∧ Good k { checker, ledger := s.ledger.r k rid rlast } := by
  have hfound : s.checker.getFirst (rid.setWidth 32) = none := by rw [getFirst_eq h, heq, Option.map_none]
  unfold Checker.r Ledger.r
  simp only [hfound, hnone, Option.some.injEq, exists_eq_left']
  exact ⟨h.rtList, h.accepted, by rw [h.charged], by rw [h.reports]⟩

theorem charged_eq {checker : Checker} (h : s.Good k) {rid : BitVec w} {rlast : Bool} (hr : s.checker.r k rid rlast = some checker) :
    checker.charged = s.checker.charged ++ [(s.ledger.oldestKept k rid).map Entry.number] := by
  unfold Checker.r at hr
  rw [getFirst_eq h] at hr
  cases hk : s.ledger.oldestKept k rid with
  | none =>
    simp only [hk, Option.map_none, Option.some.injEq] at hr
    exact hr ▸ rfl
  | some e =>
    simp only [hk, Option.map_some, Option.map_eq_some_iff] at hr
    obtain ⟨done, -, rfl⟩ := hr
    rfl

theorem ledger_charged_eq (l : Ledger w) (rid : BitVec w) (rlast : Bool) :
    (l.r k rid rlast).charged = l.charged ++ [(l.oldest rid).map Entry.number] := by
  unfold Ledger.r
  cases l.oldest rid <;> rfl

/-- A beat is charged to the right transaction and judged right exactly if it is clear. -/
theorem good_r_iff (hwf : s.ledger.Wf) (h : s.Good k) (rid : BitVec w) (rlast : Bool) :
    (∃ checker, s.checker.r k rid rlast = some checker ∧ Good k { checker, ledger := s.ledger.r k rid rlast }) ↔
      s.ledger.Clear k maxDepth (.r rid rlast) := by
  by_cases heq : s.ledger.oldestKept k rid = s.ledger.oldest rid
  · cases he : s.ledger.oldest rid with
    | none => exact iff_of_true (good_unknown h (heq.trans he) he rlast) ⟨heq, fun e hmem => by rw [he] at hmem; cases hmem⟩
    | some e =>
      rw [good_found_iff h heq he]
      simp [Ledger.Clear, heq, he]
  · refine iff_of_false ?_ fun hclear => heq hclear.1
    rintro ⟨checker, hr, hgood⟩
    have hcharged := hgood.charged
    rw [charged_eq h hr, ledger_charged_eq, h.charged] at hcharged
    exact heq ((find?_eq_iff_map_key hwf.nodup).2 (List.singleton_inj.1 (List.append_cancel_left hcharged)))

/-- What a checker makes of a transfer is right exactly if the transfer is clear. -/
theorem good_step_iff (hwf : s.ledger.Wf) (h : s.Good k) (t : Transfer w) : s.GoodAfter k maxDepth (some t) ↔ s.ledger.Clear k maxDepth t := by
  have hmap : s.GoodAfter k maxDepth (some t) ↔
      ∃ checker, s.checker.step k maxDepth t = some checker ∧ Good k { checker, ledger := s.ledger.step k t } := by
    simp [GoodAfter, step, Option.map_eq_some_iff]
  rw [hmap]
  cases t with
  | ar a =>
    rw [← good_ar_iff h a]
    simp [Checker.step, Ledger.step]
  | r rid rlast => exact good_r_iff hwf h rid rlast

theorem good_init : ({} : State w).Good k := ⟨rfl, rfl, rfl, rfl⟩

/-- An address with the ID 256, and its only beat at the next edge. -/
def wideId : List (Option (Edge 9)) :=
  [some { arvalid := true, arready := true, ar := { arid := 256, arlen := 0 }, rvalid := false, rready := false, rid := 0, rlast := false },
    some { arvalid := false, arready := false, ar := { arid := 0, arlen := 0 }, rvalid := true, rready := true, rid := 256, rlast := true }]

end State

end LibSystemCTLM.Axi.ReadChecker
