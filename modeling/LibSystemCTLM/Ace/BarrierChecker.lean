import LibSystemCTLM.Foundation.Lockstep
import LibSystemCTLM.Foundation.Runs
import Mathlib.Data.BitVec

/-!
# The checker of barrier pairs

`checker_ace_barrier` in `checker-ace.h` compares the read barriers and the write barriers of a master, which are
issued in the same sequence: it keeps those that one direction is ahead by, and compares the next one of the other
direction with the first of them.

What it finds is what there is to be found exactly if a direction is never ahead by `max_depth` when it issues one
more, and if no pair differs in its IDs only, in a bit beyond the eighth: the constructor of `Transaction` takes them
in an `uint8_t` (`runOk_barriers_iff`).

## The model

A step is a clock edge with the signals that are sampled at it, or a reset. With the lists of the checker are kept all
barriers of the two directions since the last reset, and what was reported since then.

## Honest scope

Both barriers of a pair are sampled as reads, which is why `IsPair` does not find them to be of one direction, and why
each report is one of an unexpected read.
-/

namespace LibSystemCTLM.Ace.BarrierChecker

open Foundation Foundation.Lockstep

/-- The signals of an address channel that are sampled. -/
structure Barrier (w : ℕ) where
  axID : BitVec w
  axProt : BitVec 3
  axDomain : BitVec 2
  axBar : BitVec 2
  deriving DecidableEq

/-- `checker_ace_barrier::Transaction`. -/
structure Transaction where
  isWrite : Bool
  axID : BitVec 32
  axProt : BitVec 8
  axDomain : BitVec 8
  axBar : BitVec 8
  deriving DecidableEq

/-- What is reported. -/
inductive Report where
  /-- "barrier error: unexpected read barrier detected (pair not found)", or of a write. -/
  | unexpected (isWrite : Bool)
  /-- "Maximum outstanding transactions reached". -/
  | maximum
  deriving DecidableEq

/-- `IsPair`. -/
def Transaction.isPair (pair tr : Transaction) : Bool :=
  if pair.isWrite = !tr.isWrite then false
  else decide (pair.axID = tr.axID ∧ pair.axProt = tr.axProt ∧ pair.axDomain = tr.axDomain ∧ pair.axBar = tr.axBar)

/-- The constructor, whose arguments are bytes. -/
def Transaction.new (isWrite : Bool) (axID axProt axDomain axBar : BitVec 8) : Transaction :=
  { isWrite, axID := axID.setWidth 32, axProt, axDomain, axBar }

variable {w : ℕ}

/-- `SampleARSignals`, and `SampleAWSignals`, which is the same. -/
def Barrier.sample (b : Barrier w) : Transaction :=
  .new false ((b.axID.setWidth 32).setWidth 8) (b.axProt.setWidth 8) (b.axDomain.setWidth 8) (b.axBar.setWidth 8)

@[simp] theorem Barrier.isWrite_sample (b : Barrier w) : b.sample.isWrite = false := rfl

/-- `check_pair`. -/
def checkPair (tr : Transaction) : List Transaction → Option (List Transaction × List Report)
  | [] => none
  | pair :: l => some (l, if pair.isPair tr = true then [] else [.unexpected tr.isWrite])

/-- A barrier of the direction with the list `own`: both lists, and what is reported. -/
def issue (maxDepth : ℕ) (own other : List Transaction) (tr : Transaction) : List Transaction × List Transaction × List Report :=
  if own.length < maxDepth then
    match checkPair tr other with
    | some (other', reports) => (own, other', reports)
    | none => (own ++ [tr], other, [])
  else (own, other, [.maximum])

/-! ### What there is to be found -/

/-- The lists are what one direction is ahead by, and a report was made for each pair that differs. -/
structure Matched (own other : List Transaction) (reports : List Report) (xs ys : List (Barrier w)) : Prop where
  own : own = (surplus xs ys).map Barrier.sample
  other : other = (surplus ys xs).map Barrier.sample
  reports : reports = List.replicate (mismatches xs ys) (.unexpected false)

/-- What is asked of a barrier of the direction that issued `xs`. -/
def Clear (maxDepth : ℕ) (xs ys : List (Barrier w)) (b : Barrier w) : Prop :=
  xs.length - ys.length < maxDepth ∧ ∀ b' ∈ ys[xs.length]?, b'.sample = b.sample → b' = b

instance (maxDepth : ℕ) (xs ys : List (Barrier w)) (b : Barrier w) : Decidable (Clear maxDepth xs ys b) :=
  inferInstanceAs (Decidable (_ ∧ ∀ b' ∈ _, _))

section Issue

variable {maxDepth : ℕ} {own other : List Transaction} {reports : List Report} {xs ys : List (Barrier w)} {b b' : Barrier w}

theorem isPair_sample : b'.sample.isPair b.sample = true ↔ b'.sample = b.sample := by
  simp [Transaction.isPair, Barrier.sample, Transaction.new]

theorem Matched.symm (h : Matched own other reports xs ys) : Matched other own reports ys xs :=
  ⟨h.other, h.own, by rw [h.reports, mismatches_comm]⟩

theorem matched_comm : Matched own other reports xs ys ↔ Matched other own reports ys xs := ⟨.symm, .symm⟩

/-- What a barrier does below `max_depth`. -/
theorem Matched.issue_eq (h : Matched own other reports xs ys) (hdepth : xs.length - ys.length < maxDepth) (b : Barrier w) :
    issue maxDepth own other b.sample = ((surplus (xs ++ [b]) ys).map Barrier.sample, (surplus ys (xs ++ [b])).map Barrier.sample,
      List.replicate (if ∃ b' ∈ ys[xs.length]?, b'.sample ≠ b.sample then 1 else 0) (.unexpected false)) := by
  have hlen : own.length < maxDepth := by rwa [h.own, List.length_map, length_surplus]
  unfold issue
  rw [if_pos hlen, surplus_concat_right, ← head?_surplus, h.other, h.own]
  cases hs : surplus ys xs with
  | nil =>
    rw [surplus_concat_of_le b (surplus_eq_nil_iff.1 hs)]
    simp [checkPair]
  | cons b' rest =>
    have hlt : xs.length < ys.length := by
      by_contra hle
      rw [surplus_eq_nil_iff.2 (not_lt.1 hle)] at hs
      cases hs
    rw [surplus_concat_of_lt b hlt]
    by_cases heq : b'.sample = b.sample
    · simp [checkPair, isPair_sample, heq]
    · have hpair : b'.sample.isPair b.sample = false := by rwa [← Bool.not_eq_true, isPair_sample]
      simp [checkPair, hpair, heq]

theorem issue_of_maxDepth_le (h : Matched own other reports xs ys) (hdepth : ¬xs.length - ys.length < maxDepth) (tr : Transaction) :
    issue maxDepth own other tr = (own, other, [.maximum]) := by
  rw [issue, if_neg]
  rwa [h.own, List.length_map, length_surplus]

theorem issue_nil (maxDepth : ℕ) (own : List Transaction) (tr : Transaction) :
    (issue maxDepth own [] tr).2.2 = [] ∨ (issue maxDepth own [] tr).2.2 = [.maximum] := by
  unfold issue
  split
  · exact .inl rfl
  · exact .inr rfl

theorem not_matched_of_maximum (h : .maximum ∈ reports) : ¬Matched own other reports xs ys := fun hm => by
  rw [hm.reports] at h
  cases List.eq_of_mem_replicate h

/-- **A barrier keeps it so exactly if it is clear.** -/
theorem Matched.issue_iff (h : Matched own other reports xs ys) (b : Barrier w) :
    Matched (issue maxDepth own other b.sample).1 (issue maxDepth own other b.sample).2.1 (reports ++ (issue maxDepth own other b.sample).2.2)
      (xs ++ [b]) ys ↔ Clear maxDepth xs ys b := by
  by_cases hdepth : xs.length - ys.length < maxDepth
  · have hcount : reports ++ List.replicate (if ∃ b' ∈ ys[xs.length]?, b'.sample ≠ b.sample then 1 else 0) (.unexpected false) =
        List.replicate (mismatches (xs ++ [b]) ys) (.unexpected false) ↔ ∀ b' ∈ ys[xs.length]?, b'.sample = b.sample → b' = b := by
      rw [h.reports, List.replicate_append_replicate, mismatches_concat, List.replicate_inj]
      cases ys[xs.length]? with
      | none => simp
      | some b' =>
        by_cases heq : b' = b
        · simp [heq]
        · by_cases hsample : b'.sample = b.sample
          · simp [heq, hsample, Ne.symm heq]
          · simp [hsample, Ne.symm heq]
    rw [h.issue_eq hdepth]
    exact ⟨fun hm => ⟨hdepth, hcount.1 hm.reports⟩, fun hc => ⟨rfl, rfl, hcount.2 hc.2⟩⟩
  · rw [issue_of_maxDepth_le h hdepth]
    exact iff_of_false (not_matched_of_maximum (by simp)) fun hc => hdepth hc.1

/-- What a barrier that is not clear does is not mended by one of the other direction. -/
theorem Matched.not_mended (h : Matched own other reports xs ys) (hc : ¬Clear maxDepth xs ys b) (b' : Barrier w) :
    ¬Matched (issue maxDepth (issue maxDepth own other b.sample).2.1 (issue maxDepth own other b.sample).1 b'.sample).1
      (issue maxDepth (issue maxDepth own other b.sample).2.1 (issue maxDepth own other b.sample).1 b'.sample).2.1
      (reports ++ (issue maxDepth own other b.sample).2.2 ++
        (issue maxDepth (issue maxDepth own other b.sample).2.1 (issue maxDepth own other b.sample).1 b'.sample).2.2) (ys ++ [b']) (xs ++ [b]) := by
  by_cases hdepth : xs.length - ys.length < maxDepth
  · obtain ⟨p, hp, hsample, hne⟩ : ∃ p ∈ ys[xs.length]?, p.sample = b.sample ∧ p ≠ b := by
      by_contra hno
      exact hc ⟨hdepth, fun p hp hs => by_contra fun hne => hno ⟨p, hp, hs, hne⟩⟩
    have hlt : xs.length < ys.length := (List.getElem?_eq_some_iff.1 hp).1
    -- the other direction is still ahead, so that its barrier has no partner
    have hown : surplus (xs ++ [b]) ys = [] := by
      rw [surplus_eq_nil_iff, List.length_append]
      exact hlt
    rw [h.issue_eq hdepth, hown, if_neg (by rintro ⟨q, hq, hqs⟩; exact hqs (Option.some.inj (hp.symm.trans hq) ▸ hsample))]
    have hcount : mismatches (ys ++ [b']) (xs ++ [b]) = mismatches xs ys + 1 := by
      rw [mismatches_concat, List.getElem?_eq_none (by rw [List.length_append]; exact hlt), mismatches_comm, mismatches_concat,
        if_pos ⟨p, hp, hne.symm⟩]
      simp
    obtain hnone | hmax := issue_nil maxDepth ((surplus ys (xs ++ [b])).map Barrier.sample) b'.sample
    · intro hm
      have hlen := congrArg List.length hm.reports
      rw [hcount, List.map_nil, hnone, h.reports] at hlen
      simp at hlen
    · exact not_matched_of_maximum (by simp [hmax])
  · refine not_matched_of_maximum ?_
    rw [issue_of_maxDepth_le h hdepth]
    simp

end Issue

/-! ### The checker -/

/-- The signals at a clock edge. -/
structure Edge (w : ℕ) where
  arvalid : Bool
  arready : Bool
  ar : Barrier w
  awvalid : Bool
  awready : Bool
  aw : Barrier w

/-- The read barrier of an edge. -/
def Edge.read (e : Edge w) : Option (Barrier w) := if e.arvalid = true ∧ e.arready = true ∧ e.ar.axBar ≠ 0 then some e.ar else none

/-- The write barrier of an edge. -/
def Edge.write (e : Edge w) : Option (Barrier w) := if e.awvalid = true ∧ e.awready = true ∧ e.aw.axBar ≠ 0 then some e.aw else none

/-- The checker, with what was issued and reported since the last reset. -/
structure State (w : ℕ) where
  rList : List Transaction := []
  wList : List Transaction := []
  reports : List Report := []
  reads : List (Barrier w) := []
  writes : List (Barrier w) := []
  deriving DecidableEq

namespace State

variable (maxDepth : ℕ) (s : State w)

def readBarrier (b : Barrier w) : State w :=
  let (rList, wList, reports) := issue maxDepth s.rList s.wList b.sample
  { s with rList, wList, reports := s.reports ++ reports, reads := s.reads ++ [b] }

def writeBarrier (b : Barrier w) : State w :=
  let (wList, rList, reports) := issue maxDepth s.wList s.rList b.sample
  { s with rList, wList, reports := s.reports ++ reports, writes := s.writes ++ [b] }

/-- An edge at which reset is not asserted. -/
def edge (e : Edge w) : State w :=
  let s := e.read.elim s (s.readBarrier maxDepth)
  e.write.elim s (s.writeBarrier maxDepth)

/-- An edge, or without one a reset until it is released. -/
def step (s : State w) : Option (Edge w) → Option (State w)
  | none => some {}
  | some e => some (s.edge maxDepth e)

/-- What is kept and reported of the barriers since the last reset. -/
def Good (s : State w) : Prop := Matched s.rList s.wList s.reports s.reads s.writes

/-- After the step it is so. -/
def GoodAfter (s : State w) (e? : Option (Edge w)) : Prop := ∀ s', s.step maxDepth e? = some s' → s'.Good

/-- What is asked of an edge. -/
def ClearEdge (s : State w) (e : Edge w) : Prop :=
  (∀ b ∈ e.read, Clear maxDepth s.reads s.writes b) ∧ ∀ b ∈ e.write, Clear maxDepth s.writes (s.reads ++ e.read.toList) b

/-- What is asked of a step. -/
def ClearStep (s : State w) (e? : Option (Edge w)) : Prop := ∀ e ∈ e?, s.ClearEdge maxDepth e

instance (e : Edge w) : Decidable (s.ClearEdge maxDepth e) := inferInstanceAs (Decidable ((∀ b ∈ _, _) ∧ ∀ b ∈ _, _))

instance (e? : Option (Edge w)) : Decidable (s.ClearStep maxDepth e?) := inferInstanceAs (Decidable (∀ e ∈ e?, _))

variable {maxDepth s} {e : Edge w}

@[simp] theorem reads_readBarrier (b : Barrier w) : (s.readBarrier maxDepth b).reads = s.reads ++ [b] := rfl

@[simp] theorem writes_readBarrier (b : Barrier w) : (s.readBarrier maxDepth b).writes = s.writes := rfl

theorem good_readBarrier_iff (h : s.Good) (b : Barrier w) : (s.readBarrier maxDepth b).Good ↔ Clear maxDepth s.reads s.writes b :=
  Matched.issue_iff h b

theorem good_writeBarrier_iff (h : s.Good) (b : Barrier w) : (s.writeBarrier maxDepth b).Good ↔ Clear maxDepth s.writes s.reads b :=
  matched_comm.trans (h.symm.issue_iff b)

/-- A write barrier does not mend what a read barrier at the same edge has done. -/
theorem not_good_of_not_clear (h : s.Good) {b : Barrier w} (hc : ¬Clear maxDepth s.reads s.writes b) (b' : Barrier w) :
    ¬((s.readBarrier maxDepth b).writeBarrier maxDepth b').Good := fun hgood => h.not_mended hc b' hgood.symm

/-- What an edge does is right exactly if its barriers are clear. -/
theorem good_edge_iff (h : s.Good) : (s.edge maxDepth e).Good ↔ s.ClearEdge maxDepth e := by
  unfold edge ClearEdge
  cases hr : e.read with
  | none =>
    cases hw : e.write with
    | none => simpa using h
    | some b' => simpa using good_writeBarrier_iff h b'
  | some b =>
    cases hw : e.write with
    | none => simpa using good_readBarrier_iff h b
    | some b' =>
      by_cases hc : Clear maxDepth s.reads s.writes b
      · have hmid := (good_readBarrier_iff h b).2 hc
        simpa [hc] using good_writeBarrier_iff hmid b'
      · exact iff_of_false (not_good_of_not_clear h hc b') fun hboth => hc (hboth.1 b rfl)

theorem good_init : ({} : State w).Good := ⟨rfl, rfl, rfl⟩

/-- At most one of the lists is not empty. -/
theorem Good.eq_nil_or (h : s.Good) : s.rList = [] ∨ s.wList = [] := by
  obtain hr | hw := surplus_eq_nil_or s.reads s.writes
  · exact .inl (by rw [h.own, hr, List.map_nil])
  · exact .inr (by rw [h.other, hw, List.map_nil])

/-- **In every run the lists are what a direction is ahead by, and the reports are those of the pairs that differ, exactly if no direction
gets ahead by more than `max_depth` and no pair differs in its IDs only, beyond the eighth bit.** -/
theorem runOk_barriers_iff (es : List (Option (Edge w))) :
    RunOk (step maxDepth) (GoodAfter maxDepth) ({} : State w) es ↔ RunOk (step maxDepth) (ClearStep maxDepth) ({} : State w) es := by
  refine runOk_congr_of_ok (fun _ hgood hs => hgood _ hs) (fun {s e?} h => ?_) good_init
  cases e? with
  | none => exact iff_of_true (by rintro _ ⟨⟩; exact good_init) (fun _ => nofun)
  | some e => simpa [GoodAfter, ClearStep, step] using good_edge_iff h

/-- An edge at which both directions issue a barrier. -/
def both (rid wid : BitVec w) : Edge w where
  arvalid := true
  arready := true
  ar := { axID := rid, axProt := 0, axDomain := 2, axBar := 1 }
  awvalid := true
  awready := true
  aw := { axID := wid, axProt := 0, axDomain := 2, axBar := 1 }

/-- The IDs of the pair differ in the ninth bit, and nothing is reported. -/
theorem not_runOk_barriers : ¬RunOk (step 64) (GoodAfter 64) ({} : State 16) [some (both 0x101 0x001)] := by
  rintro ⟨hgood, -⟩
  have hreports := (hgood _ rfl).reports
  revert hreports
  decide

end State

end LibSystemCTLM.Ace.BarrierChecker
