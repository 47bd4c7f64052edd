import LibSystemCTLM.Rtl.AddrServices

/-!
# What is asked of the allocator

In every state that is reached the ranges of the nodes do not meet, the list has each node once and in the order of
the addresses, an allocation is refused only if there is no node or no room for it, and the node of each completed
descriptor is freed, and no other one (`Sound`). That is so in legal runs in which a gap over the end of the RAM that
is too small is not taken for a large one, no descriptor is assigned where its bit is cleared at the same edge, and none
is completed again while its last completion is served (`Fair`).
-/

namespace LibSystemCTLM.Rtl

open Foundation LinkedList

variable {r : Ram} {s : State r} {x : Inputs}

/-! ### What is asked -/

structure Sound (s : State r) : Prop where
  /-- The ranges of the nodes do not meet. -/
  disjoint : ∀ i j, s.regs.ll.nodeVld i = true → s.regs.ll.nodeVld j = true → i ≠ j →
    ∀ y, ¬((s.regs.ll.range s.ledger.axlen i).Covers y ∧ (s.regs.ll.range s.ledger.axlen j).Covers y)
  /-- The list has each node once, besides those that are being taken out, -/
  visits : ∀ i, s.regs.ll.nodeVld i = true → s.regs.ll.visited.count i = 1
  only : ∀ i ∈ s.regs.ll.visited, s.regs.ll.nodeVld i = true ∨ s.regs.dealc.removed i = true
  /-- from the head on round the ring, -/
  ordered : s.regs.ll.visited.Pairwise fun i j =>
    (s.regs.ll.dataStrtOffset i - s.regs.ll.dataStrtOffset s.regs.ll.headPtr).toNat <
      (s.regs.ll.dataStrtOffset j - s.regs.ll.dataStrtOffset s.regs.ll.headPtr).toNat
  /-- and `data_ll_idx` is the position. -/
  indexed : s.regs.ll.Indexed (s.regs.dealc.listed s.regs.ll s.regs.ll.visited)
  /-- What is returned is the start of a node's range. -/
  returned : s.regs.addrAlcValid = true →
    s.regs.ll.nodeVld s.regs.alc.addrAlcNodeIdx = true ∧ s.regs.ll.dataStrtOffset s.regs.alc.addrAlcNodeIdx = s.regs.alc.addrAlcOffset
  /-- There is no node, or no run of free locations, for a request that is refused. -/
  refused : s.regs.alc.preAddrAlcFailed = true → ∀ n, s.ledger.asked = some n → (∀ i, s.regs.ll.nodeVld i = true) ∨
    ∀ y, ∃ t ≤ n.toNat, ∃ i, s.regs.ll.nodeVld i = true ∧ (s.regs.ll.range s.ledger.axlen i).Covers (y + BitVec.ofNat r.width t)
  /-- A node is freed once for each completion of its descriptor, -/
  freed : ∀ i, s.ledger.freed i ≤ s.ledger.completed i ∧ s.ledger.completed i ≤ s.ledger.freed i + 1
  /-- within sixteen edges. -/
  prompt : ∀ i, s.ledger.waited i ≤ 15

/-- What the users of the allocator keep to: one request at a time, which is held; a descriptor that is not in use for
a node that has none; and completions of descriptors in use. -/
structure Legal (s : State r) (x : Inputs) : Prop where
  requests : s.regs.requests x = true → s.ledger.asked = none
  holds : ∀ n, s.ledger.asked = some n → x.txnSize = n
  assigns : s.regs.assigns x = true → s.regs.ll.nodeVld x.alcNodeIdx = true ∧ s.ledger.owner x.alcNodeIdx = none ∧ ∀ i, s.ledger.owner i ≠ some x.alcDescIdx
  completes : ∀ d, s.regs.completes x d = true → ∃ i, s.ledger.owner i = some d ∧ s.ledger.completed i = s.ledger.freed i

/-- What has to hold besides. -/
structure Fair (s : State r) (x : Inputs) : Prop extends Legal s x where
  roomy : s.regs.alc.state = .checkAvail → ∀ n, s.ledger.asked = some n → Alc.Roomy s.regs.ll n
  stale : s.regs.assigns x = true → s.regs.dealcServiceVld = true → s.regs.dealcServiceVldFf = false →
    s.regs.addrFreeupDescVec (s.regs.dataDescIdx x.alcNodeIdx) = false
  served : ∀ d, s.regs.completes x d = true → s.regs.addrFreeupDescVecSave d = false

instance (s : State r) (x : Inputs) : Decidable (Legal s x) :=
  decidable_of_iff
    ((s.regs.requests x = true → s.ledger.asked = none) ∧ (∀ n ∈ s.ledger.asked, x.txnSize = n) ∧
      (s.regs.assigns x = true → s.regs.ll.nodeVld x.alcNodeIdx = true ∧ s.ledger.owner x.alcNodeIdx = none ∧ ∀ i, s.ledger.owner i ≠ some x.alcDescIdx) ∧
      ∀ d, s.regs.completes x d = true → ∃ i, s.ledger.owner i = some d ∧ s.ledger.completed i = s.ledger.freed i)
    ⟨fun ⟨hrequests, hholds, hassigns, hcompletes⟩ => ⟨hrequests, hholds, hassigns, hcompletes⟩, fun h => ⟨h.requests, h.holds, h.assigns, h.completes⟩⟩

instance (s : State r) (x : Inputs) : Decidable (Fair s x) :=
  decidable_of_iff
    (Legal s x ∧ (s.regs.alc.state = .checkAvail → ∀ n ∈ s.ledger.asked, Alc.Roomy s.regs.ll n) ∧
      (s.regs.assigns x = true → s.regs.dealcServiceVld = true → s.regs.dealcServiceVldFf = false →
        s.regs.addrFreeupDescVec (s.regs.dataDescIdx x.alcNodeIdx) = false) ∧
      ∀ d, s.regs.completes x d = true → s.regs.addrFreeupDescVecSave d = false)
    ⟨fun ⟨hlegal, hroomy, hstale, hserved⟩ => ⟨hlegal, hroomy, hstale, hserved⟩, fun h => ⟨h.toLegal, h.roomy, h.stale, h.served⟩⟩

/-! ### The states of the machines -/

/-- What an edge makes of the two services and of the list. -/
structure Serves {w : ℕ} (s : Regs w) (x : Inputs) (alc : Alc w) (dealc : Dealc) (ll : LinkedList w) : Prop where
  alc : (s.clock x).alc = alc
  dealc : (s.clock x).dealc = dealc
  ll : (s.clock x).ll = ll

theorem serves_of_serve {w : ℕ} {s : Regs w} {x : Inputs} {alc : Alc w} {dealc : Dealc} {ll : LinkedList w}
    (h : s.serve x = (alc, dealc, ll)) : Serves s x alc dealc ll :=
  ⟨congrArg (fun p => p.1) h, congrArg (fun p => p.2.1) h, congrArg (fun p => p.2.2) h⟩

/-- How the three state machines go together. -/
structure Phases (s : State r) : Prop where
  ser : s.regs.ser = .go s.regs.ser.serState
  alcIdle : s.regs.ser.serState ≠ .alc → s.regs.alc.state = .idle
  dealcIdle : s.regs.ser.serState ≠ .dealc → s.regs.dealc.state = .idle
  preValid : s.regs.alc.preAddrAlcValid = decide (s.regs.alc.state = .newLl ∨ s.regs.alc.state = .addNode)
  preFailed : s.regs.alc.preAddrAlcFailed = decide (s.regs.alc.state = .failed)
  preDealc : ∀ d, s.regs.dealc.preAddrDealcValid d = (decide (s.regs.dealc.state = .updateLl) && s.regs.addrFreeupDescVec d)
  first : s.regs.ser.serState = .dealc → s.regs.dealcServiceVldFf = !decide (s.regs.dealc.state = .idle)
  busy : s.regs.ser.serState = .dealc → s.regs.addrFreeupDescVec.any = true
  subset : ∀ d, s.regs.addrFreeupDescVec d = true → s.regs.addrFreeupDescVecSave d = true
  asked : s.regs.addrTxnValid = s.ledger.asked.isSome
  serves : s.regs.ser.serState = .alc → s.ledger.asked.isSome = true

namespace Phases

variable (h : Phases s)

include h

theorem serve_of_alc (hser : s.regs.ser.serState = .alc) (x : Inputs) :
    Serves s.regs x (s.regs.alcService x).1 s.regs.dealc (s.regs.alcService x).2 := by
  refine serves_of_serve ?_
  have hgo := h.ser
  rw [hser] at hgo
  unfold Regs.serve
  rw [hgo]
  rfl

theorem serve_of_dealc (hser : s.regs.ser.serState = .dealc) (x : Inputs) :
    Serves s.regs x s.regs.alc s.regs.dealcService.1 s.regs.dealcService.2 := by
  refine serves_of_serve ?_
  have hgo := h.ser
  rw [hser] at hgo
  unfold Regs.serve
  rw [hgo]
  rfl

theorem serve_of_none (halc : s.regs.ser.serState ≠ .alc) (hdealc : s.regs.ser.serState ≠ .dealc) (x : Inputs) :
    Serves s.regs x s.regs.alc.done s.regs.dealc.done s.regs.ll := by
  refine serves_of_serve ?_
  have hgo := h.ser
  unfold Regs.serve
  rw [hgo]
  cases hser : s.regs.ser.serState with
  | idle => rfl
  | waitDealc => rfl
  | alc => exact absurd hser halc
  | dealc => exact absurd hser hdealc

theorem dealcServiceVld_eq : s.regs.dealcServiceVld = decide (s.regs.ser.serState = .dealc) := by
  unfold Regs.dealcServiceVld
  rw [h.ser]
  cases s.regs.ser.serState <;> rfl

theorem preDealc_any : s.regs.dealc.preAddrDealcValid.any = decide (s.regs.dealc.state = .updateLl) := by
  by_cases hstate : s.regs.dealc.state = .updateLl
  · have hser : s.regs.ser.serState = .dealc := by
      by_contra hne
      rw [h.dealcIdle hne] at hstate
      cases hstate
    obtain ⟨d, hd⟩ := Vec.any_eq_true.1 (h.busy hser)
    rw [decide_eq_true hstate, Vec.any_eq_true]
    exact ⟨d, by rw [h.preDealc, decide_eq_true hstate, hd]; rfl⟩
  · rw [decide_eq_false hstate, Bool.eq_false_iff]
    intro hany
    obtain ⟨d, hd⟩ := Vec.any_eq_true.1 hany
    rw [h.preDealc, decide_eq_false hstate] at hd
    cases hd

end Phases

/-- The states of an allocation, after an edge of it. -/
theorem alcService_flags {w : ℕ} (s : Regs w) (x : Inputs) :
    (s.alcService x).1.preAddrAlcValid = decide ((s.alcService x).1.state = .newLl ∨ (s.alcService x).1.state = .addNode) ∧
      (s.alcService x).1.preAddrAlcFailed = decide ((s.alcService x).1.state = .failed) ∧
        ((s.alcService x).1.state = .idle ↔ s.alc.state = .newLl ∨ s.alc.state = .addNode ∨ s.alc.state = .failed) := by
  unfold Regs.alcService
  cases s.alc.state with
  | idle =>
    dsimp only
    unfold Alc.idle
    split <;> simp
  | checkAvail =>
    dsimp only
    unfold Alc.checkAvail
    cases s.alc.nodeAvail.any && s.alc.spaceAvail.any <;> simp
  | _ => simp [Alc.done, Alc.udLl, Alc.calDiffOffset, Alc.calSpaceNode, Alc.calIdx]

/-- The states of a deallocation, after an edge of it. -/
theorem dealcService_flags {w : ℕ} (s : Regs w) (d : Idx) :
    s.dealcService.1.preAddrDealcValid d = (decide (s.dealcService.1.state = .updateLl) && s.addrFreeupDescVec d) ∧
      (s.dealcService.1.state = .idle ↔ s.dealc.state = .updateLl) := by
  unfold Regs.dealcService
  cases s.dealc.state <;> simp [Dealc.idle, Dealc.calSubVec, Dealc.calSubcnt, Dealc.calLlIdx, Dealc.calNextVec, Dealc.done]

theorem Phases.init : Phases ({} : State r) := by
  refine ⟨rfl, fun _ => rfl, fun _ => rfl, rfl, rfl, fun _ => rfl, nofun, nofun, fun _ => nofun, rfl, nofun⟩

section Next

variable (ser : Service) (addrTxnValid addrFreeupValid preAddrAlcValid preAddrAlcFailed preAddrDealcValid : Bool)

theorem Service.next_eq_go : ser.next addrTxnValid addrFreeupValid preAddrAlcValid preAddrAlcFailed preAddrDealcValid =
    .go (ser.next addrTxnValid addrFreeupValid preAddrAlcValid preAddrAlcFailed preAddrDealcValid).serState := by
  unfold Service.next
  cases ser.serState <;> dsimp only <;> split_ifs <;> rfl

theorem Service.next_alc (h : (ser.next addrTxnValid addrFreeupValid preAddrAlcValid preAddrAlcFailed preAddrDealcValid).serState = .alc) :
    ser.serState ≠ .alc ∧ addrTxnValid = true ∧ (ser.serState = .dealc → preAddrDealcValid = true) ∨
      ser.serState = .alc ∧ preAddrAlcValid = false ∧ preAddrAlcFailed = false := by
  revert h
  unfold Service.next
  cases ser.serState <;> dsimp only <;> split_ifs <;> simp_all [Service.go]

theorem Service.next_dealc (h : (ser.next addrTxnValid addrFreeupValid preAddrAlcValid preAddrAlcFailed preAddrDealcValid).serState = .dealc) :
    ser.serState ≠ .dealc ∧ addrFreeupValid = true ∧ (ser.serState = .alc → preAddrAlcValid = true ∨ preAddrAlcFailed = true) ∨
      ser.serState = .dealc ∧ preAddrDealcValid = false := by
  revert h
  unfold Service.next
  cases ser.serState <;> dsimp only <;> split_ifs <;> simp_all [Service.go]

/-- When the service of an allocation, or of a deallocation, goes on. -/
theorem Service.next_of_alc (hser : ser.serState = .alc) (hvalid : preAddrAlcValid = false) (hfailed : preAddrAlcFailed = false) :
    (ser.next addrTxnValid addrFreeupValid preAddrAlcValid preAddrAlcFailed preAddrDealcValid).serState = .alc := by
  unfold Service.next
  rw [hser, hvalid, hfailed]
  rfl

theorem Service.next_of_dealc (hser : ser.serState = .dealc) (hdealc : preAddrDealcValid = false) :
    (ser.next addrTxnValid addrFreeupValid preAddrAlcValid preAddrAlcFailed preAddrDealcValid).serState = .dealc := by
  unfold Service.next
  rw [hser, hdealc]
  rfl

end Next

theorem asked_clock (hidle : s.regs.alc.preAddrAlcValid = false) (hsome : s.ledger.asked.isSome = true) :
    (s.ledger.clock s.regs (s.regs.clock x) x).asked.isSome = true := by
  change (if s.regs.alc.preAddrAlcValid = true then none else if s.regs.requests x = true then some x.txnSize else s.ledger.asked).isSome = true
  rw [hidle, if_neg Bool.false_ne_true]
  split
  · rfl
  · exact hsome

theorem Phases.preValid_of_ne (h : Phases s) (hne : s.regs.ser.serState ≠ .alc) : s.regs.alc.preAddrAlcValid = false := by
  rw [h.preValid, h.alcIdle hne]
  rfl

/-- The bits of a deallocation's vector stay while it is served, and are those that were kept elsewhere. -/
theorem Phases.vec_clock (h : Phases s) (x : Inputs) (d : Idx) : (s.regs.clock x).addrFreeupDescVec d =
    if s.regs.dealc.state = .updateLl ∧ s.regs.addrFreeupDescVec d = true then false
    else if s.regs.ser.serState = .dealc then s.regs.addrFreeupDescVec d else s.regs.addrFreeupDescVecSave d := by
  change (if s.regs.dealc.preAddrDealcValid d = true then false
    else if s.regs.dealcServiceVld = true then s.regs.addrFreeupDescVec d else s.regs.addrFreeupDescVecSave d) = _
  rw [h.preDealc, h.dealcServiceVld_eq]
  simp only [Bool.and_eq_true, decide_eq_true_eq]

theorem Phases.save_clock (h : Phases s) (x : Inputs) (d : Idx) : (s.regs.clock x).addrFreeupDescVecSave d =
    if s.regs.dealc.state = .updateLl ∧ s.regs.addrFreeupDescVec d = true then false
    else if s.regs.completes x d = true then true else s.regs.addrFreeupDescVecSave d := by
  change (if s.regs.dealc.preAddrDealcValid d = true then false
    else if s.regs.completes x d = true then true else s.regs.addrFreeupDescVecSave d) = _
  rw [h.preDealc]
  simp only [Bool.and_eq_true, decide_eq_true_eq]

theorem Phases.clock (h : Phases s) (x : Inputs) : Phases (⟨s.regs.clock x, s.ledger.clock s.regs (s.regs.clock x) x⟩ : State r) := by
  have hsubset : ∀ d, (s.regs.clock x).addrFreeupDescVec d = true → (s.regs.clock x).addrFreeupDescVecSave d = true := by
    intro d
    have hsub := h.subset d
    rw [h.vec_clock, h.save_clock]
    split_ifs <;> simp_all
  have hasked : (s.regs.clock x).addrTxnValid = (s.ledger.clock s.regs (s.regs.clock x) x).asked.isSome := by
    unfold Regs.clock Ledger.clock
    dsimp only
    split_ifs
    · rfl
    · rfl
    · exact h.asked
  have hany := h.preDealc_any
  have hgo : (s.regs.clock x).ser = .go (s.regs.clock x).ser.serState := Service.next_eq_go _ _ _ _ _ _
  have hvec : ∀ d, s.regs.addrFreeupDescVec d = true → s.regs.dealc.state ≠ .updateLl → (s.regs.clock x).addrFreeupDescVec d = true := by
    intro d hd hne
    have hsub := h.subset d hd
    rw [h.vec_clock, if_neg fun hup => hne hup.1]
    split <;> assumption
  have hsome : (s.regs.clock x).ser.serState = .dealc → (s.regs.clock x).addrFreeupDescVec.any = true := by
    intro hnext
    obtain ⟨hne, hfreeup, -⟩ | ⟨hser, hpre⟩ := Service.next_dealc _ _ _ _ _ _ hnext
    · obtain ⟨d, hd⟩ := Vec.any_eq_true.1 hfreeup
      exact Vec.any_eq_true.2 ⟨d, hvec d hd (by rw [h.dealcIdle hne]; nofun)⟩
    · rw [hany, decide_eq_false_iff_not] at hpre
      obtain ⟨d, hd⟩ := Vec.any_eq_true.1 (h.busy hser)
      exact Vec.any_eq_true.2 ⟨d, hvec d hd hpre⟩
  have hserves : (s.regs.clock x).ser.serState = .alc → (s.ledger.clock s.regs (s.regs.clock x) x).asked.isSome = true := by
    intro hnext
    obtain ⟨hne, hvalid, -⟩ | ⟨hser, hpre, -⟩ := Service.next_alc _ _ _ _ _ _ hnext
    · exact asked_clock (h.preValid_of_ne hne) (h.asked ▸ hvalid)
    · exact asked_clock hpre (h.serves hser)
  have hff : (s.regs.clock x).dealcServiceVldFf = decide (s.regs.ser.serState = .dealc) := h.dealcServiceVld_eq
  by_cases halc : s.regs.ser.serState = .alc
  · have hserve := h.serve_of_alc halc x
    have hdealc : (s.regs.clock x).dealc = s.regs.dealc := hserve.dealc
    have hclock : (s.regs.clock x).alc = (s.regs.alcService x).1 := hserve.alc
    have hidle : s.regs.dealc.state = .idle := h.dealcIdle (by rw [halc]; nofun)
    obtain ⟨hvalid, hfailed, hends⟩ := alcService_flags s.regs x
    refine ⟨hgo, fun hne => ?_, fun _ => ?_, ?_, ?_, fun d => ?_, fun hnext => ?_, hsome, hsubset, hasked, hserves⟩
    · rw [hclock, hends]
      by_contra hnot
      rw [← or_assoc, not_or] at hnot
      refine hne (Service.next_of_alc _ _ _ _ _ _ halc ?_ ?_)
      · rw [h.preValid]
        exact decide_eq_false hnot.1
      · rw [h.preFailed]
        exact decide_eq_false hnot.2
    · rw [hdealc]
      exact hidle
    · rw [hclock]
      exact hvalid
    · rw [hclock]
      exact hfailed
    · rw [hdealc, h.preDealc, hidle]
      rfl
    · rw [hdealc, hff, halc, hidle]
      rfl
  · have hstate := h.alcIdle halc
    by_cases hser : s.regs.ser.serState = .dealc
    · have hserve := h.serve_of_dealc hser x
      have hclock : (s.regs.clock x).alc = s.regs.alc := hserve.alc
      have hdealc : (s.regs.clock x).dealc = s.regs.dealcService.1 := hserve.dealc
      have hflags := dealcService_flags s.regs
      refine ⟨hgo, fun _ => ?_, fun hne => ?_, ?_, ?_, fun d => ?_, fun hnext => ?_, hsome, hsubset, hasked, hserves⟩
      · rw [hclock]
        exact hstate
      · rw [hdealc, (hflags 0).2]
        by_contra hnot
        refine hne (Service.next_of_dealc _ _ _ _ _ _ hser ?_)
        rw [hany]
        exact decide_eq_false hnot
      · rw [hclock]
        exact h.preValid
      · rw [hclock]
        exact h.preFailed
      · rw [hdealc, (hflags d).1, h.vec_clock, if_pos hser]
        by_cases hup : s.regs.dealc.state = .updateLl
        · rw [(hflags d).2.2 hup]
          rfl
        · rw [if_neg fun hboth => hup hboth.1]
      · have hup : s.regs.dealc.state ≠ .updateLl := by
          obtain ⟨hne, -⟩ | ⟨-, hnot⟩ := Service.next_dealc _ _ _ _ _ _ hnext
          · exact absurd hser hne
          · rw [hany] at hnot
            exact of_decide_eq_false hnot
        rw [hdealc, hff, decide_eq_true hser, decide_eq_false fun hidle => hup ((hflags 0).2.1 hidle)]
        rfl
    · have hserve := h.serve_of_none halc hser x
      have hclock : (s.regs.clock x).alc = s.regs.alc.done := hserve.alc
      have hdealc : (s.regs.clock x).dealc = s.regs.dealc.done := hserve.dealc
      refine ⟨hgo, fun _ => ?_, fun _ => ?_, ?_, ?_, fun d => ?_, fun _ => ?_, hsome, hsubset, hasked, hserves⟩
      · rw [hclock]
        rfl
      · rw [hdealc]
        rfl
      · rw [hclock]
        rfl
      · rw [hclock]
        rfl
      · rw [hdealc]
        rfl
      · rw [hdealc, hff, decide_eq_false hser]
        rfl

end LibSystemCTLM.Rtl
