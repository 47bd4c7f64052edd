import LibSystemCTLM.Rtl.AddrPhases

/-!
# The allocator along its runs

What one edge makes of the list, of the descriptors of the nodes and of the completions that wait, and from it `Sound`
in every state of a fair run.
-/

namespace LibSystemCTLM.Rtl

open Foundation LinkedList

variable {r : Ram} {s : State r} {x : Inputs} {order : List Idx}

/-- The state after an edge. -/
def State.clock (s : State r) (x : Inputs) : State r := ⟨s.regs.clock x, s.ledger.clock s.regs (s.regs.clock x) x⟩

/-! ### The nodes -/

/-- The first edge of a deallocation is to come. -/
def State.frees (s : State r) : Prop := s.regs.ser.serState = .dealc ∧ s.regs.dealc.state = .idle

instance (s : State r) : Decidable s.frees := inferInstanceAs (Decidable (_ ∧ _))

theorem Phases.nodeVld_clock (h : Phases s) (x : Inputs) (halc : s.regs.ser.serState ≠ .alc) (i : Idx) :
    (s.clock x).regs.ll.nodeVld i = if s.frees ∧ s.regs.freeup i = true then false else s.regs.ll.nodeVld i := by
  by_cases hser : s.regs.ser.serState = .dealc
  · have hll : (s.clock x).regs.ll = s.regs.dealcService.2 := (h.serve_of_dealc hser x).ll
    rw [hll]
    unfold Regs.dealcService
    cases hstate : s.regs.dealc.state with
    | idle =>
      have hfrees : s.frees := ⟨hser, hstate⟩
      simp only [hfrees, true_and]
      rfl
    | _ => exact (if_neg fun hboth => by simp [State.frees, hstate] at hboth).symm
  · have hll : (s.clock x).regs.ll = s.regs.ll := (h.serve_of_none halc hser x).ll
    rw [hll, if_neg fun hboth => hser hboth.1.1]

theorem Phases.nodeVld_of_alc (h : Phases s) (x : Inputs) (halc : s.regs.ser.serState = .alc) {i : Idx} (hi : s.regs.ll.nodeVld i = true) :
    (s.clock x).regs.ll.nodeVld i = true := by
  have hll : (s.clock x).regs.ll = (s.regs.alcService x).2 := (h.serve_of_alc halc x).ll
  rw [hll]
  unfold Regs.alcService
  cases s.regs.alc.state with
  | newLl =>
    dsimp only
    rw [nodeVld_newLl, Function.update_apply]
    split
    · rfl
    · exact hi
  | addNode =>
    dsimp only
    rw [nodeVld_addNode, Function.update_apply]
    split
    · rfl
    · exact hi
  | _ => exact hi

/-- **What an edge frees.** -/
theorem Phases.loses_eq (h : Phases s) (x : Inputs) (i : Idx) : Ledger.loses s.regs (s.clock x).regs i = (decide s.frees && s.regs.freeup i) := by
  unfold Ledger.loses
  by_cases halc : s.regs.ser.serState = .alc
  · have hnot : ¬s.frees := fun hfrees => by
      have := hfrees.1
      rw [halc] at this
      cases this
    rw [decide_eq_false hnot]
    cases hi : s.regs.ll.nodeVld i with
    | false => rfl
    | true =>
      rw [h.nodeVld_of_alc x halc hi]
      rfl
  · rw [h.nodeVld_clock x halc]
    have hlive : s.regs.freeup i = true → s.regs.ll.nodeVld i = true := fun hf => by
      unfold Regs.freeup at hf
      simp only [Bool.and_eq_true] at hf
      exact hf.1.1
    by_cases hfrees : s.frees
    · cases hf : s.regs.freeup i with
      | false => cases s.regs.ll.nodeVld i <;> simp
      | true => simp [hfrees, hlive hf]
    · simp [hfrees]

/-- Nothing is allocated but where an allocation ends. -/
theorem axlen_clock (hlost : ∀ i, (s.clock x).regs.ll.nodeVld i = true → s.regs.ll.nodeVld i = true) : (s.clock x).ledger.axlen = s.ledger.axlen := by
  funext i
  refine if_neg fun hgains => ?_
  unfold Ledger.gains at hgains
  rw [Bool.and_eq_true, Bool.not_eq_true'] at hgains
  rw [hlost i hgains.2] at hgains
  cases hgains.1

theorem axlen_gained {n : BitVec 8} {m : Idx} (hasked : s.ledger.asked = some n) (hm : s.regs.ll.nodeVld m = false)
    (hnew : (s.clock x).regs.ll.nodeVld = Function.update s.regs.ll.nodeVld m true) :
    (s.clock x).ledger.axlen m = n ∧ ∀ i, i ≠ m → (s.clock x).ledger.axlen i = s.ledger.axlen i := by
  have hgains : ∀ i, Ledger.gains s.regs (s.clock x).regs i = (!s.regs.ll.nodeVld i && Function.update s.regs.ll.nodeVld m true i) := fun i => by
    rw [← hnew]
    rfl
  constructor
  · change (if Ledger.gains s.regs (s.clock x).regs m = true then s.ledger.asked.getD 0 else _) = n
    rw [hgains, hm, Function.update_self, hasked]
    rfl
  · intro i hi
    change (if Ledger.gains s.regs (s.clock x).regs i = true then _ else s.ledger.axlen i) = s.ledger.axlen i
    rw [hgains, Function.update_of_ne hi]
    cases s.regs.ll.nodeVld i <;> rfl

/-! ### The list -/

/-- **What an edge makes of the list.** -/
theorem Lists.clock (h : Lists s.regs.ll s.regs.dealc s.ledger.axlen order) (hphases : Phases s)
    (hfound : ∀ n, s.ledger.asked = some n → s.regs.alc.Found s.regs.ll n) (hlegal : Legal s x) :
    ∃ order', Lists (s.clock x).regs.ll (s.clock x).regs.dealc (s.clock x).ledger.axlen order' := by
  by_cases halc : s.regs.ser.serState = .alc
  · have hserve := hphases.serve_of_alc halc x
    have hdealc : (s.clock x).regs.dealc = s.regs.dealc := hserve.dealc
    have hll : (s.clock x).regs.ll = (s.regs.alcService x).2 := hserve.ll
    have hidle : s.regs.dealc.state = .idle := hphases.dealcIdle (by rw [halc]; nofun)
    obtain ⟨n, hn⟩ := Option.isSome_iff_exists.1 (hphases.serves halc)
    have hsize := hlegal.holds n hn
    have hfoundn := hfound n hn
    have hsame : (s.regs.alcService x).2 = s.regs.ll → ∃ order', Lists (s.clock x).regs.ll (s.clock x).regs.dealc (s.clock x).ledger.axlen order' := by
      intro heq
      rw [heq] at hll
      rw [hll, hdealc, axlen_clock fun i hi => by rwa [hll] at hi]
      exact ⟨order, h⟩
    unfold Regs.alcService at hll hsame
    unfold Alc.Found at hfoundn
    cases hstate : s.regs.alc.state with
    | newLl =>
      rw [hstate, hsize] at hll
      rw [hstate] at hfoundn
      have haxlen := axlen_gained (x := x) hn (h.dead hidle hfoundn 0) (congrArg LinkedList.nodeVld hll)
      rw [hll, hdealc]
      exact ⟨[0], h.newLl hidle r.le_width hfoundn haxlen.1⟩
    | addNode =>
      rw [hstate, hsize] at hll
      rw [hstate] at hfoundn
      obtain ⟨hpos, hroom, hnew⟩ := hfoundn
      have haxlen := axlen_gained (x := x) hn hnew (congrArg LinkedList.nodeVld hll)
      rw [hll, hdealc]
      exact h.addNode hidle hpos hnew hroom haxlen.1 haxlen.2
    | _ =>
      rw [hstate] at hsame
      exact hsame rfl
  · have hlost : ∀ i, (s.clock x).regs.ll.nodeVld i = true → s.regs.ll.nodeVld i = true := fun i hi => by
      rw [hphases.nodeVld_clock x halc] at hi
      split at hi
      · cases hi
      · exact hi
    rw [axlen_clock hlost]
    by_cases hser : s.regs.ser.serState = .dealc
    · have hserve := hphases.serve_of_dealc hser x
      have hdealc : (s.clock x).regs.dealc = s.regs.dealcService.1 := hserve.dealc
      have hll : (s.clock x).regs.ll = s.regs.dealcService.2 := hserve.ll
      rw [hdealc, hll]
      unfold Regs.dealcService
      cases hstate : s.regs.dealc.state with
      | idle =>
        refine ⟨order, h.remove hstate fun i hi => ?_⟩
        unfold Regs.freeup at hi
        simp only [Bool.and_eq_true] at hi
        exact hi.1.1
      | calSubVec => exact ⟨order, h.calSubVec hstate⟩
      | calSubcnt => exact ⟨order, h.calSubcnt hstate⟩
      | calLlIdx => exact ⟨order, h.calLlIdx hstate⟩
      | calNextVec => exact ⟨order, h.calNextVec hstate _⟩
      | updateLl => exact ⟨_, h.updateLl hstate⟩
    · have hserve := hphases.serve_of_none halc hser x
      have hdealc : (s.clock x).regs.dealc = s.regs.dealc.done := hserve.dealc
      have hll : (s.clock x).regs.ll = s.regs.ll := hserve.ll
      rw [hdealc, hll]
      exact ⟨order, h.idle_of (hphases.dealcIdle hser) rfl⟩

/-- What is found for the request that is served. -/
theorem found_clock (hphases : Phases s) (hfound : ∀ n, s.ledger.asked = some n → s.regs.alc.Found s.regs.ll n) (hfair : Fair s x) (n : BitVec 8)
    (hn : (s.clock x).ledger.asked = some n) : (s.clock x).regs.alc.Found (s.clock x).regs.ll n := by
  have htrivial : (s.clock x).regs.alc.state = .idle → (s.clock x).regs.alc.Found (s.clock x).regs.ll n := by
    intro hidle
    unfold Alc.Found
    rw [hidle]
    trivial
  by_cases halc : s.regs.ser.serState = .alc
  · have hserve := hphases.serve_of_alc halc x
    have hll : (s.clock x).regs.ll = (s.regs.alcService x).2 := hserve.ll
    have hclock : (s.clock x).regs.alc = (s.regs.alcService x).1 := hserve.alc
    obtain ⟨k, hk⟩ := Option.isSome_iff_exists.1 (hphases.serves halc)
    have hsize := hfair.holds k hk
    by_cases hends : (s.clock x).regs.alc.state = .idle
    · exact htrivial hends
    · have hsame : k = n := by
        have hpre : s.regs.alc.preAddrAlcValid = false := by
          rw [hphases.preValid]
          refine decide_eq_false fun hlast => hends ?_
          rw [hclock, (alcService_flags s.regs x).2.2]
          exact hlast.imp_right .inl
        have hnone : s.regs.requests x = false := Bool.eq_false_iff.2 fun hreq => by
          rw [hfair.requests hreq] at hk
          cases hk
        have hnext : (s.clock x).ledger.asked = s.ledger.asked := by
          change (if _ = true then none else if _ = true then _ else _) = _
          rw [hpre, hnone]
          rfl
        exact Option.some.inj (hk.symm.trans (hnext.symm.trans hn))
      subst hsame
      have hfoundn := hfound k hk
      rw [hclock] at hends
      rw [hclock, hll]
      unfold Regs.alcService at hends ⊢
      cases hstate : s.regs.alc.state with
      | idle => exact Alc.found_idle
      | udLl =>
        unfold Alc.Found at hfoundn
        rw [hstate] at hfoundn
        exact Alc.found_udLl r.width_le hfoundn
      | calDiffOffset => exact hfoundn.calDiffOffset hstate
      | calSpaceNode =>
        rw [hsize]
        exact hfoundn.calSpaceNode hstate
      | checkAvail => exact hfoundn.checkAvail hstate (hfair.roomy hstate k hk)
      | calIdx => exact hfoundn.calIdx hstate
      | _ =>
        rw [hstate] at hends
        exact absurd rfl hends
  · refine htrivial ?_
    by_cases hser : s.regs.ser.serState = .dealc
    · have hclock : (s.clock x).regs.alc = s.regs.alc := (hphases.serve_of_dealc hser x).alc
      rw [hclock]
      exact hphases.alcIdle halc
    · have hclock : (s.clock x).regs.alc = s.regs.alc.done := (hphases.serve_of_none halc hser x).alc
      rw [hclock]
      rfl

theorem returned_clock (hphases : Phases s) (h : (s.clock x).regs.addrAlcValid = true) :
    (s.clock x).regs.ll.nodeVld (s.clock x).regs.alc.addrAlcNodeIdx = true ∧
      (s.clock x).regs.ll.dataStrtOffset (s.clock x).regs.alc.addrAlcNodeIdx = (s.clock x).regs.alc.addrAlcOffset := by
  have hpre : s.regs.alc.preAddrAlcValid = true := h
  have hlast := of_decide_eq_true (hphases.preValid ▸ hpre)
  have halc : s.regs.ser.serState = .alc := by
    by_contra hne
    rw [hphases.alcIdle hne] at hlast
    simp at hlast
  have hserve := hphases.serve_of_alc halc x
  have hll : (s.clock x).regs.ll = (s.regs.alcService x).2 := hserve.ll
  have hclock : (s.clock x).regs.alc = (s.regs.alcService x).1 := hserve.alc
  rw [hll, hclock]
  unfold Regs.alcService
  obtain hstate | hstate := hlast
  · simp [hstate, LinkedList.newLl]
  · simp [hstate]

/-! ### The descriptors -/

/-- A completion of a descriptor is noted that is not being served yet. -/
def State.noted (s : State r) (d : Idx) : Bool :=
  s.regs.addrFreeupDescVecSave d && !(decide (s.regs.dealc.state ≠ .idle) && s.regs.addrFreeupDescVec d)

/-- The descriptors of the nodes, and their completions. -/
structure Owners (s : State r) : Prop where
  owner : ∀ i, s.ledger.owner i = if s.regs.dataDescIdxVld i = true then some (s.regs.dataDescIdx i) else none
  live : ∀ i, s.regs.dataDescIdxVld i = true → s.regs.ll.nodeVld i = true
  inj : ∀ i j d, s.ledger.owner i = some d → s.ledger.owner j = some d → i = j
  saved : ∀ d, s.regs.addrFreeupDescVecSave d = true →
    (∃ i, s.ledger.owner i = some d) ∨ s.regs.dealc.state ≠ .idle ∧ s.regs.addrFreeupDescVec d = true
  noted : ∀ i d, s.ledger.owner i = some d → s.ledger.completed i = s.ledger.freed i + if s.noted d = true then 1 else 0
  unowned : ∀ i, s.ledger.owner i = none → s.ledger.completed i = s.ledger.freed i

theorem Owners.init : Owners ({} : State r) := ⟨fun _ => rfl, nofun, fun _ => nofun, nofun, nofun, fun _ _ => rfl⟩

/-- The descriptor of a node, after an edge. -/
theorem Phases.owner_clock (h : Phases s) (x : Inputs) (i : Idx) : (s.clock x).ledger.owner i =
    if s.frees ∧ s.regs.freeup i = true then none else if i = x.alcNodeIdx ∧ s.regs.assigns x = true then some x.alcDescIdx else s.ledger.owner i := by
  change (if Ledger.loses s.regs (s.clock x).regs i = true then none else _) = _
  rw [h.loses_eq]
  simp only [Bool.and_eq_true, decide_eq_true_eq]

/-- The first edge of a deallocation, as the source finds it. -/
theorem Phases.frees_iff (h : Phases s) : s.regs.dealcServiceVld = true ∧ s.regs.dealcServiceVldFf = false ↔ s.frees := by
  rw [h.dealcServiceVld_eq, decide_eq_true_eq]
  constructor
  · rintro ⟨hser, hff⟩
    rw [h.first hser, Bool.not_eq_false', decide_eq_true_eq] at hff
    exact ⟨hser, hff⟩
  · rintro ⟨hser, hidle⟩
    rw [h.first hser, hidle]
    exact ⟨hser, rfl⟩

theorem Phases.dataDescIdxVld_clock (h : Phases s) (x : Inputs) (i : Idx) : (s.clock x).regs.dataDescIdxVld i =
    if s.frees ∧ s.regs.addrFreeupDescVec (s.regs.dataDescIdx i) = true then false
    else if i = x.alcNodeIdx ∧ s.regs.assigns x = true then true else s.regs.dataDescIdxVld i :=
  if_congr (and_comm.trans (and_congr_left' h.frees_iff)) rfl rfl

theorem Phases.dealcState_clock (h : Phases s) (x : Inputs) :
    (s.clock x).regs.dealc.state ≠ .idle ↔ s.regs.ser.serState = .dealc ∧ s.regs.dealc.state ≠ .updateLl := by
  by_cases halc : s.regs.ser.serState = .alc
  · have hdealc : (s.clock x).regs.dealc = s.regs.dealc := (h.serve_of_alc halc x).dealc
    rw [hdealc, h.dealcIdle (by rw [halc]; nofun), halc]
    simp
  · by_cases hser : s.regs.ser.serState = .dealc
    · have hdealc : (s.clock x).regs.dealc = s.regs.dealcService.1 := (h.serve_of_dealc hser x).dealc
      rw [hdealc, Ne, (dealcService_flags s.regs 0).2, and_iff_right hser]
    · have hdealc : (s.clock x).regs.dealc = s.regs.dealc.done := (h.serve_of_none halc hser x).dealc
      rw [hdealc]
      exact iff_of_false (fun hne => hne rfl) fun hboth => hser hboth.1

theorem Phases.noted_clock (h : Phases s) (x : Inputs) (d : Idx) : (s.clock x).noted d =
    ((s.regs.completes x d || s.regs.addrFreeupDescVecSave d) && !(decide (s.regs.ser.serState = .dealc) && s.regs.addrFreeupDescVec d)) := by
  have hmid := h.dealcState_clock x
  have hvec := h.vec_clock x d
  have hsave := h.save_clock x d
  unfold State.noted
  change ((s.regs.clock x).addrFreeupDescVecSave d && !(decide ((s.clock x).regs.dealc.state ≠ .idle) && (s.regs.clock x).addrFreeupDescVec d)) = _
  have hdec : decide ((s.clock x).regs.dealc.state ≠ .idle) = decide (s.regs.ser.serState = .dealc ∧ s.regs.dealc.state ≠ .updateLl) := decide_eq_decide.2 hmid
  rw [hvec, hsave, hdec]
  by_cases hser : s.regs.ser.serState = .dealc
  · by_cases hup : s.regs.dealc.state = .updateLl
    · cases hd : s.regs.addrFreeupDescVec d <;> simp [hser, hup]
    · cases hd : s.regs.addrFreeupDescVec d <;> simp [hser, hup]
  · have hup : s.regs.dealc.state ≠ .updateLl := by
      rw [h.dealcIdle hser]
      nofun
    simp [hser, hup]

namespace Owners

theorem freeup_eq (h : Owners s) (i : Idx) : s.regs.freeup i = (s.ledger.owner i).any s.regs.addrFreeupDescVec := by
  unfold Regs.freeup
  rw [h.owner i]
  cases hvld : s.regs.dataDescIdxVld i with
  | false => simp
  | true => simp [h.live i hvld]

/-- What a node that keeps its descriptor had before. -/
theorem owner_before (h : Owners s) (hphases : Phases s) {i d : Idx} (howner : (s.clock x).ledger.owner i = some d) :
    (i = x.alcNodeIdx ∧ s.regs.assigns x = true ∧ d = x.alcDescIdx) ∨ s.ledger.owner i = some d ∧ ¬(s.frees ∧ s.regs.addrFreeupDescVec d = true) := by
  rw [hphases.owner_clock] at howner
  split_ifs at howner with hfreed hassigns
  · exact .inl ⟨hassigns.1, hassigns.2, (Option.some.inj howner).symm⟩
  · rw [h.freeup_eq, howner] at hfreed
    exact .inr ⟨howner, hfreed⟩

/-- A node keeps its descriptor until it is freed. -/
theorem owner_after (h : Owners s) (hphases : Phases s) (hlegal : Legal s x) {i d : Idx} (howner : s.ledger.owner i = some d)
    (hkept : ¬(s.frees ∧ s.regs.addrFreeupDescVec d = true)) : (s.clock x).ledger.owner i = some d := by
  rw [hphases.owner_clock, h.freeup_eq, howner, Option.any_some, if_neg hkept, if_neg]
  rintro ⟨rfl, hassigns⟩
  rw [(hlegal.assigns hassigns).2.1] at howner
  cases howner

theorem nodeVld_after (hphases : Phases s) {i : Idx} (hi : s.regs.ll.nodeVld i = true) (hkept : ¬(s.frees ∧ s.regs.freeup i = true)) :
    (s.clock x).regs.ll.nodeVld i = true := by
  have hloses := hphases.loses_eq x i
  unfold Ledger.loses at hloses
  by_contra hdead
  rw [hi, Bool.eq_false_iff.2 hdead] at hloses
  rw [eq_comm, Bool.not_false, Bool.and_true, Bool.and_eq_true, decide_eq_true_eq] at hloses
  exact hkept hloses

theorem clock_owner (h : Owners s) (hphases : Phases s) (hfair : Fair s x) (i : Idx) : (s.clock x).ledger.owner i =
    if (s.clock x).regs.dataDescIdxVld i = true then some ((s.clock x).regs.dataDescIdx i) else none := by
  rw [hphases.owner_clock, hphases.dataDescIdxVld_clock]
  have hidx : (s.clock x).regs.dataDescIdx = if s.regs.assigns x = true then Function.update s.regs.dataDescIdx x.alcNodeIdx x.alcDescIdx else s.regs.dataDescIdx := rfl
  by_cases ha : i = x.alcNodeIdx ∧ s.regs.assigns x = true
  · obtain ⟨rfl, hassigns⟩ := ha
    have hfreeup : s.regs.freeup x.alcNodeIdx = false := by
      rw [h.freeup_eq, (hfair.assigns hassigns).2.1]
      rfl
    have hstale : ¬(s.frees ∧ s.regs.addrFreeupDescVec (s.regs.dataDescIdx x.alcNodeIdx) = true) := by
      rintro ⟨hfrees, hset⟩
      obtain ⟨hvld, hff⟩ := hphases.frees_iff.2 hfrees
      rw [hfair.stale hassigns hvld hff] at hset
      cases hset
    simp [hfreeup, hstale, hassigns, hidx]
  · have hsame : (s.clock x).regs.dataDescIdx i = s.regs.dataDescIdx i := by
      rw [hidx]
      split
      · rename_i hassigns
        exact Function.update_of_ne (fun heq => ha ⟨heq, hassigns⟩) _ _
      · rfl
    rw [if_neg ha, if_neg ha, hsame, h.freeup_eq, h.owner i]
    cases hvld : s.regs.dataDescIdxVld i with
    | false => simp
    | true => by_cases hcleared : s.frees ∧ s.regs.addrFreeupDescVec (s.regs.dataDescIdx i) = true <;> simp [hcleared]

theorem clock (h : Owners s) (hphases : Phases s) (hfair : Fair s x) : Owners (s.clock x) := by
  have hfreed : ∀ i, (s.clock x).ledger.freed i = s.ledger.freed i + if s.frees ∧ s.regs.freeup i = true then 1 else 0 := fun i => by
    change s.ledger.freed i + (if Ledger.loses s.regs (s.clock x).regs i = true then 1 else 0) = _
    rw [hphases.loses_eq]
    simp only [Bool.and_eq_true, decide_eq_true_eq]
  have hcompleted : ∀ i, (s.clock x).ledger.completed i = s.ledger.completed i + if (s.ledger.owner i).any (s.regs.completes x) = true then 1 else 0 :=
    fun _ => rfl
  -- a descriptor that is completed has no bit set
  have hfresh : ∀ d, s.regs.completes x d = true → s.regs.addrFreeupDescVec d = false := fun d hd => Bool.eq_false_iff.2 fun hset => by
    have hsave := hphases.subset d hset
    rw [hfair.served d hd] at hsave
    cases hsave
  have hmid : s.regs.dealc.state ≠ .idle → s.regs.ser.serState = .dealc := fun hne => by
    by_contra hser
    exact hne (hphases.dealcIdle hser)
  refine ⟨h.clock_owner hphases hfair, fun i hi => ?_, fun i j d hi hj => ?_, fun d hd => ?_, fun i d hi => ?_, fun i hi => ?_⟩
  · rw [hphases.dataDescIdxVld_clock] at hi
    split_ifs at hi with hcleared hassigns
    · obtain ⟨rfl, hassigns⟩ := hassigns
      refine nodeVld_after hphases (hfair.assigns hassigns).1 fun hboth => ?_
      rw [h.freeup_eq, (hfair.assigns hassigns).2.1] at hboth
      cases hboth.2
    · refine nodeVld_after hphases (h.live i hi) fun hboth => hcleared ?_
      rwa [h.freeup_eq, h.owner i, if_pos hi] at hboth
  · obtain ⟨rfl, hassigns, rfl⟩ | ⟨hi, -⟩ := h.owner_before hphases hi
    · obtain ⟨rfl, -⟩ | ⟨hj, -⟩ := h.owner_before hphases hj
      · rfl
      · exact absurd hj ((hfair.assigns hassigns).2.2 j)
    · obtain ⟨rfl, hassigns, rfl⟩ | ⟨hj, -⟩ := h.owner_before hphases hj
      · exact absurd hi ((hfair.assigns hassigns).2.2 i)
      · exact h.inj i j d hi hj
  · have hsave := hphases.save_clock x d
    have hvec := hphases.vec_clock x d
    change (s.regs.clock x).addrFreeupDescVecSave d = true at hd
    rw [hsave] at hd
    split_ifs at hd with hcleared hcompletes
    · obtain ⟨i, howner, -⟩ := hfair.completes d hcompletes
      refine .inl ⟨i, h.owner_after hphases hfair.toLegal howner fun hboth => ?_⟩
      rw [hfresh d hcompletes] at hboth
      cases hboth.2
    · have hstays : s.regs.ser.serState = .dealc → s.regs.dealc.state ≠ .updateLl → s.regs.addrFreeupDescVec d = true →
          (s.clock x).regs.dealc.state ≠ .idle ∧ (s.clock x).regs.addrFreeupDescVec d = true := fun hser hne hset => by
        refine ⟨(hphases.dealcState_clock x).2 ⟨hser, hne⟩, ?_⟩
        change (s.regs.clock x).addrFreeupDescVec d = true
        rw [hvec, if_neg hcleared, if_pos hser]
        exact hset
      obtain ⟨i, howner⟩ | ⟨hne, hset⟩ := h.saved d hd
      · by_cases hfrees : s.frees ∧ s.regs.addrFreeupDescVec d = true
        · exact .inr (hstays hfrees.1.1 (by rw [hfrees.1.2]; nofun) hfrees.2)
        · exact .inl ⟨i, h.owner_after hphases hfair.toLegal howner hfrees⟩
      · exact .inr (hstays (hmid hne) (fun hup => hcleared ⟨hup, hset⟩) hset)
  · rw [hfreed, hcompleted, hphases.noted_clock, h.freeup_eq]
    obtain ⟨rfl, hassigns, rfl⟩ | ⟨howner, hkept⟩ := h.owner_before hphases hi
    · obtain ⟨-, hnone, hunused⟩ := hfair.assigns hassigns
      have hquiet : s.regs.completes x x.alcDescIdx = false := Bool.eq_false_iff.2 fun hcompletes => by
        obtain ⟨i, howner, -⟩ := hfair.completes _ hcompletes
        exact hunused i howner
      have hserved : s.regs.addrFreeupDescVecSave x.alcDescIdx = true → s.regs.ser.serState = .dealc ∧ s.regs.addrFreeupDescVec x.alcDescIdx = true := fun hsave => by
        obtain ⟨i, howner⟩ | ⟨hne, hset⟩ := h.saved _ hsave
        · exact absurd howner (hunused i)
        · exact ⟨hmid hne, hset⟩
      have hequal := h.unowned _ hnone
      cases hsave : s.regs.addrFreeupDescVecSave x.alcDescIdx with
      | false => simp [hnone, hquiet, hequal]
      | true => simp [hnone, hquiet, hequal, (hserved hsave).1, (hserved hsave).2]
    · have hbefore := h.noted i d howner
      rw [howner, Option.any_some, Option.any_some, if_neg hkept, hbefore]
      unfold State.noted
      cases hcompletes : s.regs.completes x d with
      | true => simp [hfair.served d hcompletes, hfresh d hcompletes]
      | false =>
        have hsame : (decide (s.regs.dealc.state ≠ .idle) && s.regs.addrFreeupDescVec d) = (decide (s.regs.ser.serState = .dealc) && s.regs.addrFreeupDescVec d) := by
          cases hset : s.regs.addrFreeupDescVec d with
          | false => simp
          | true =>
            rw [Bool.and_true, Bool.and_true, decide_eq_decide]
            exact ⟨hmid, fun hser hidle => hkept ⟨⟨hser, hidle⟩, hset⟩⟩
        rw [hsame, Bool.false_or]
        rfl
  · rw [hfreed, hcompleted, h.freeup_eq]
    rw [hphases.owner_clock, h.freeup_eq] at hi
    cases howner : s.ledger.owner i with
    | none =>
      have hequal := h.unowned i howner
      simp [hequal]
    | some d =>
      by_cases hfrees : s.frees ∧ s.regs.addrFreeupDescVec d = true
      · have hsave := hphases.subset d hfrees.2
        have hbefore := h.noted i d howner
        have hquiet : s.regs.completes x d = false := Bool.eq_false_iff.2 fun hcompletes => by
          rw [hfair.served d hcompletes] at hsave
          cases hsave
        unfold State.noted at hbefore
        simp only [hsave, hfrees.1.2] at hbefore
        simp [hfrees, hquiet, hbefore]
      · rw [howner, Option.any_some, if_neg hfrees] at hi
        split at hi <;> cases hi

end Owners

/-! ### Waiting -/

/-- At how many edges an allocation ends. -/
def AlcState.toEnd : AlcState → ℕ
  | .idle => 7
  | .newLl => 1
  | .udLl => 6
  | .calDiffOffset => 5
  | .calSpaceNode => 4
  | .checkAvail => 3
  | .failed => 1
  | .calIdx => 2
  | .addNode => 1

/-- At how many edges a deallocation ends. -/
def DealcState.toEnd : DealcState → ℕ
  | .idle => 6
  | .calSubVec => 5
  | .calSubcnt => 4
  | .calLlIdx => 3
  | .calNextVec => 2
  | .updateLl => 1

/-- At how many edges the node of a descriptor that is completed is freed, at most. -/
def State.toFree (s : State r) (d : Idx) : ℕ :=
  match s.regs.ser.serState with
  | .idle => if s.regs.addrFreeupDescVec d = true then if s.regs.addrTxnValid = true then 9 else 2 else 10
  | .alc => s.regs.alc.state.toEnd + if s.regs.addrFreeupDescVec d = true then 1 else 2
  | .waitDealc => if s.regs.addrFreeupDescVec d = true then 2 else 3
  | .dealc => if s.regs.dealc.state = .idle ∧ s.regs.addrFreeupDescVec d = true then 1 else s.regs.dealc.state.toEnd + 10

theorem toFree_le (s : State r) (d : Idx) : s.toFree d ≤ 16 := by
  have halc : s.regs.alc.state.toEnd ≤ 7 := by cases s.regs.alc.state <;> decide
  have hdealc : s.regs.dealc.state.toEnd ≤ 6 := by cases s.regs.dealc.state <;> decide
  unfold State.toFree
  split <;> split_ifs <;> omega

theorem AlcState.toEnd_pos (a : AlcState) : 0 < a.toEnd := by cases a <;> decide

theorem alcService_toEnd {w : ℕ} (s : Regs w) (x : Inputs) (hgoes : (s.alcService x).1.state ≠ .idle) :
    (s.alcService x).1.state.toEnd < s.alc.state.toEnd := by
  unfold Regs.alcService at hgoes ⊢
  cases hstate : s.alc.state with
  | idle =>
    simp only [Alc.idle]
    split <;> simp [AlcState.toEnd]
  | checkAvail =>
    simp only [Alc.checkAvail]
    split <;> simp [AlcState.toEnd]
  | udLl => simp [Alc.udLl, AlcState.toEnd]
  | calDiffOffset => simp [Alc.calDiffOffset, AlcState.toEnd]
  | calSpaceNode => simp [Alc.calSpaceNode, AlcState.toEnd]
  | calIdx => simp [Alc.calIdx, AlcState.toEnd]
  | _ =>
    rw [hstate] at hgoes
    exact absurd rfl hgoes

theorem dealcService_toEnd {w : ℕ} (s : Regs w) (hgoes : s.dealc.state ≠ .updateLl) : s.dealcService.1.state.toEnd < s.dealc.state.toEnd := by
  unfold Regs.dealcService
  cases hstate : s.dealc.state with
  | updateLl => exact absurd hstate hgoes
  | _ => simp [Dealc.idle, Dealc.calSubVec, Dealc.calSubcnt, Dealc.calLlIdx, Dealc.calNextVec, DealcState.toEnd]

section ToFree

variable {d : Idx} {n : ℕ}

theorem toFree_of_idle (hser : s.regs.ser.serState = .idle) :
    s.toFree d = if s.regs.addrFreeupDescVec d = true then if s.regs.addrTxnValid = true then 9 else 2 else 10 := by
  unfold State.toFree
  rw [hser]

theorem toFree_of_alc (hser : s.regs.ser.serState = .alc) : s.toFree d = s.regs.alc.state.toEnd + if s.regs.addrFreeupDescVec d = true then 1 else 2 := by
  unfold State.toFree
  rw [hser]

theorem toFree_of_waitDealc (hser : s.regs.ser.serState = .waitDealc) : s.toFree d = if s.regs.addrFreeupDescVec d = true then 2 else 3 := by
  unfold State.toFree
  rw [hser]

theorem toFree_of_dealc (hser : s.regs.ser.serState = .dealc) :
    s.toFree d = if s.regs.dealc.state = .idle ∧ s.regs.addrFreeupDescVec d = true then 1 else s.regs.dealc.state.toEnd + 10 := by
  unfold State.toFree
  rw [hser]

theorem ser_clock (s : State r) (x : Inputs) : (s.clock x).regs.ser =
    s.regs.ser.next s.regs.addrTxnValid s.regs.addrFreeupDescVec.any s.regs.alc.preAddrAlcValid s.regs.alc.preAddrAlcFailed
      s.regs.dealc.preAddrDealcValid.any := rfl

theorem not_mem_of_any_false (hnone : s.regs.addrFreeupDescVec.any = false) (d : Idx) : s.regs.addrFreeupDescVec d = false :=
  Bool.eq_false_iff.2 fun hset => by
    rw [Vec.any_eq_true.2 ⟨d, hset⟩] at hnone
    cases hnone

/-- What was saved is taken over while nothing is deallocated. -/
theorem vec_clock_of_save (h : Phases s) (x : Inputs) (hsave : s.regs.addrFreeupDescVecSave d = true) (hser : s.regs.ser.serState ≠ .dealc) :
    (s.clock x).regs.addrFreeupDescVec d = true := by
  rw [show (s.clock x).regs.addrFreeupDescVec d = _ from h.vec_clock x d, h.dealcIdle hser, if_neg (by simp), if_neg hser]
  exact hsave

/-- A deallocation that begins has the bit. -/
theorem toFree_of_begins (h : Phases s) (x : Inputs) (hset : (s.clock x).regs.addrFreeupDescVec d = true)
    (hne : s.regs.ser.serState ≠ .dealc) (hser : (s.clock x).regs.ser.serState = .dealc) : (s.clock x).toFree d = 1 := by
  have hidle : (s.clock x).regs.dealc.state = .idle := by
    by_contra hgoes
    exact hne ((h.dealcState_clock x).1 hgoes).1
  rw [toFree_of_dealc hser, if_pos ⟨hidle, hset⟩]

theorem toFree_clock_of_idle (h : Phases s) (x : Inputs) (hsave : s.regs.addrFreeupDescVecSave d = true) (hser : s.regs.ser.serState = .idle) :
    (s.clock x).toFree d < s.toFree d := by
  have hnext := ser_clock s x
  have hne : s.regs.ser.serState ≠ .dealc := by rw [hser]; nofun
  have hset' := vec_clock_of_save h x hsave hne
  unfold Service.next at hnext
  rw [hser] at hnext
  rw [toFree_of_idle hser]
  cases hreq : s.regs.addrTxnValid with
  | true =>
    have hser' : (s.clock x).regs.ser.serState = .alc := by rw [hnext, hreq]; rfl
    have halc : (s.clock x).regs.alc = s.regs.alc.done := (h.serve_of_none (by rw [hser]; nofun) hne x).alc
    rw [toFree_of_alc hser', hset', halc]
    change 7 + 1 < _
    split <;> decide
  | false =>
    cases hfreeup : s.regs.addrFreeupDescVec.any with
    | true =>
      have hser' : (s.clock x).regs.ser.serState = .dealc := by rw [hnext, hreq, hfreeup]; rfl
      rw [toFree_of_begins h x hset' hne hser']
      split <;> decide
    | false =>
      have hser' : (s.clock x).regs.ser.serState = .idle := by rw [hnext, hreq, hfreeup]; rfl
      rw [toFree_of_idle hser', hset', not_mem_of_any_false hfreeup d, if_pos rfl, if_neg Bool.false_ne_true]
      split <;> decide

theorem toFree_clock_of_waitDealc (h : Phases s) (x : Inputs) (hsave : s.regs.addrFreeupDescVecSave d = true) (hser : s.regs.ser.serState = .waitDealc) :
    (s.clock x).toFree d < s.toFree d := by
  have hnext := ser_clock s x
  have hne : s.regs.ser.serState ≠ .dealc := by rw [hser]; nofun
  have hset' := vec_clock_of_save h x hsave hne
  unfold Service.next at hnext
  rw [hser] at hnext
  rw [toFree_of_waitDealc hser]
  cases hfreeup : s.regs.addrFreeupDescVec.any with
  | true =>
    have hser' : (s.clock x).regs.ser.serState = .dealc := by rw [hnext, hfreeup]; rfl
    rw [toFree_of_begins h x hset' hne hser']
    split <;> decide
  | false =>
    have hser' : (s.clock x).regs.ser.serState = .waitDealc := by rw [hnext, hfreeup]; rfl
    rw [toFree_of_waitDealc hser', hset', not_mem_of_any_false hfreeup d]
    decide

theorem toFree_clock_of_alc (h : Phases s) (x : Inputs) (hsave : s.regs.addrFreeupDescVecSave d = true) (hser : s.regs.ser.serState = .alc) :
    (s.clock x).toFree d < s.toFree d := by
  have hnext := ser_clock s x
  have hne : s.regs.ser.serState ≠ .dealc := by rw [hser]; nofun
  have hset' := vec_clock_of_save h x hsave hne
  have halc : (s.clock x).regs.alc = (s.regs.alcService x).1 := (h.serve_of_alc hser x).alc
  have hends := (alcService_flags s.regs x).2.2
  have hpos := s.regs.alc.state.toEnd_pos
  unfold Service.next at hnext
  rw [hser] at hnext
  rw [toFree_of_alc hser]
  cases hvalid : s.regs.alc.preAddrAlcValid with
  | true =>
    cases hfreeup : s.regs.addrFreeupDescVec.any with
    | true =>
      have hser' : (s.clock x).regs.ser.serState = .dealc := by rw [hnext, hvalid, hfreeup]; rfl
      rw [toFree_of_begins h x hset' hne hser']
      split <;> omega
    | false =>
      have hser' : (s.clock x).regs.ser.serState = .idle := by rw [hnext, hvalid, hfreeup]; rfl
      have hrequest : (s.clock x).regs.addrTxnValid = false := if_pos hvalid
      rw [toFree_of_idle hser', hset', hrequest, not_mem_of_any_false hfreeup d, if_pos rfl, if_neg Bool.false_ne_true, if_neg Bool.false_ne_true]
      omega
  | false =>
    cases hfailed : s.regs.alc.preAddrAlcFailed with
    | true =>
      cases hfreeup : s.regs.addrFreeupDescVec.any with
      | true =>
        have hser' : (s.clock x).regs.ser.serState = .dealc := by rw [hnext, hvalid, hfailed, hfreeup]; rfl
        rw [toFree_of_begins h x hset' hne hser']
        split <;> omega
      | false =>
        have hser' : (s.clock x).regs.ser.serState = .waitDealc := by rw [hnext, hvalid, hfailed, hfreeup]; rfl
        rw [toFree_of_waitDealc hser', hset', not_mem_of_any_false hfreeup d, if_pos rfl, if_neg Bool.false_ne_true]
        omega
    | false =>
      have hser' : (s.clock x).regs.ser.serState = .alc := by rw [hnext, hvalid, hfailed]; rfl
      have hgoes : (s.regs.alcService x).1.state ≠ .idle := fun hidle => by
        have hlast := hends.1 hidle
        rw [h.preValid] at hvalid
        rw [h.preFailed] at hfailed
        rw [← or_assoc] at hlast
        exact hlast.elim (of_decide_eq_false hvalid) (of_decide_eq_false hfailed)
      have hless := alcService_toEnd s.regs x hgoes
      rw [toFree_of_alc hser', hset', halc, if_pos rfl]
      split <;> omega

theorem toFree_clock_of_dealc (h : Phases s) (x : Inputs) (hclear : s.regs.addrFreeupDescVec d = false) (hser : s.regs.ser.serState = .dealc) :
    (s.clock x).toFree d < s.toFree d := by
  have hnext := ser_clock s x
  have hclear' : (s.clock x).regs.addrFreeupDescVec d = false := by
    rw [show (s.clock x).regs.addrFreeupDescVec d = _ from h.vec_clock x d, hser, hclear]
    simp
  have hdealc : (s.clock x).regs.dealc = s.regs.dealcService.1 := (h.serve_of_dealc hser x).dealc
  have halc : (s.clock x).regs.alc = s.regs.alc := (h.serve_of_dealc hser x).alc
  have hpre := h.preDealc_any
  unfold Service.next at hnext
  rw [hser] at hnext
  rw [toFree_of_dealc hser, hclear, if_neg fun hboth => Bool.false_ne_true hboth.2]
  by_cases hup : s.regs.dealc.state = .updateLl
  · rw [decide_eq_true hup] at hpre
    rw [hup]
    cases hreq : s.regs.addrTxnValid with
    | true =>
      have hser' : (s.clock x).regs.ser.serState = .alc := by rw [hnext, hpre, hreq]; rfl
      rw [toFree_of_alc hser', halc, h.alcIdle (by rw [hser]; nofun), hclear']
      decide
    | false =>
      have hser' : (s.clock x).regs.ser.serState = .idle := by rw [hnext, hpre, hreq]; rfl
      rw [toFree_of_idle hser', hclear', if_neg Bool.false_ne_true]
      decide
  · rw [decide_eq_false hup] at hpre
    have hser' : (s.clock x).regs.ser.serState = .dealc := by rw [hnext, hpre]; rfl
    have hless := dealcService_toEnd s.regs hup
    rw [toFree_of_dealc hser', hclear', if_neg fun hboth => Bool.false_ne_true hboth.2, hdealc]
    omega

/-- **Each edge brings the deallocation nearer.** -/
theorem toFree_clock (h : Phases s) (x : Inputs) (hnoted : s.noted d = true) (hkept : ¬(s.frees ∧ s.regs.addrFreeupDescVec d = true)) :
    (s.clock x).toFree d < s.toFree d := by
  unfold State.noted at hnoted
  obtain ⟨hsave, hnot⟩ := Bool.and_eq_true_iff.1 hnoted
  rw [Bool.not_eq_true', Bool.and_eq_false_iff, decide_eq_false_iff_not, not_not] at hnot
  cases hser : s.regs.ser.serState with
  | idle => exact toFree_clock_of_idle h x hsave hser
  | waitDealc => exact toFree_clock_of_waitDealc h x hsave hser
  | alc => exact toFree_clock_of_alc h x hsave hser
  | dealc =>
    refine toFree_clock_of_dealc h x ?_ hser
    obtain hidle | hclear := hnot
    · exact Bool.eq_false_iff.2 fun hd => hkept ⟨⟨hser, hidle⟩, hd⟩
    · exact hclear

end ToFree

/-- How long the completions have waited. -/
structure Waits (s : State r) : Prop where
  waits : ∀ i d, s.ledger.owner i = some d → s.noted d = true → s.ledger.waited i + s.toFree d ≤ 16
  calm : ∀ i, s.ledger.freed i = s.ledger.completed i → s.ledger.waited i = 0

theorem Waits.init : Waits ({} : State r) := ⟨fun _ => nofun, fun _ _ => rfl⟩

theorem Waits.clock (h : Waits s) (howners : Owners s) (hphases : Phases s) (hfair : Fair s x) : Waits (s.clock x) := by
  have hwaited : ∀ i, (s.clock x).ledger.waited i =
      if s.ledger.freed i < s.ledger.completed i ∧ (decide s.frees && s.regs.freeup i) = false then s.ledger.waited i + 1 else 0 := fun i => by
    rw [← hphases.loses_eq x i]
    rfl
  have hstill : ∀ i, (s.clock x).ledger.waited i ≠ 0 → ∃ d, s.ledger.owner i = some d ∧ s.noted d = true ∧
      ¬(s.frees ∧ s.regs.addrFreeupDescVec d = true) ∧ (s.clock x).ledger.waited i = s.ledger.waited i + 1 := by
    intro i hne
    rw [hwaited i] at hne ⊢
    split at hne
    · rename_i hboth
      rw [if_pos hboth]
      obtain ⟨hlt, hnot⟩ := hboth
      cases howner : s.ledger.owner i with
      | none =>
        have := howners.unowned i howner
        omega
      | some d =>
        have hcount := howners.noted i d howner
        have hnoted : s.noted d = true := by
          by_contra hnone
          rw [if_neg hnone] at hcount
          omega
        refine ⟨d, rfl, hnoted, fun hfrees => ?_, rfl⟩
        rw [howners.freeup_eq, howner, Option.any_some, decide_eq_true hfrees.1, hfrees.2] at hnot
        cases hnot
    · exact absurd rfl hne
  have hafter := howners.clock hphases hfair
  refine ⟨fun i d howner hnoted => ?_, fun i hequal => ?_⟩
  · by_cases hzero : (s.clock x).ledger.waited i = 0
    · have hle := toFree_le (s.clock x) d
      omega
    · obtain ⟨d', howner', hnoted', hkept, hsucc⟩ := hstill i hzero
      have hsame := howners.owner_after hphases hfair.toLegal howner' hkept
      rw [howner] at hsame
      obtain rfl := Option.some.inj hsame
      have hbefore := h.waits i d howner' hnoted'
      have hless := toFree_clock hphases x hnoted' hkept
      omega
  · by_contra hne
    obtain ⟨d, howner, hnoted, hkept, -⟩ := hstill i hne
    have howner' := howners.owner_after hphases hfair.toLegal howner hkept
    have hcount := hafter.noted i d howner'
    have hfalse : (s.clock x).noted d = false := by
      by_contra hset
      rw [if_pos (Bool.eq_true_of_not_eq_false hset)] at hcount
      omega
    unfold State.noted at hnoted
    obtain ⟨hsave, hnot⟩ := Bool.and_eq_true_iff.1 hnoted
    rw [hphases.noted_clock, hsave, Bool.or_true, Bool.true_and, Bool.not_eq_false', Bool.and_eq_true, decide_eq_true_eq] at hfalse
    have hmid : s.regs.dealc.state ≠ .idle := fun hidle => hkept ⟨⟨hfalse.1, hidle⟩, hfalse.2⟩
    rw [decide_eq_true hmid, hfalse.2] at hnot
    cases hnot

/-! ### Runs -/

/-- What holds along a fair run. -/
structure Inv (s : State r) : Prop where
  phases : Phases s
  lists : ∃ order, Lists s.regs.ll s.regs.dealc s.ledger.axlen order
  found : ∀ n, s.ledger.asked = some n → s.regs.alc.Found s.regs.ll n
  returned : s.regs.addrAlcValid = true →
    s.regs.ll.nodeVld s.regs.alc.addrAlcNodeIdx = true ∧ s.regs.ll.dataStrtOffset s.regs.alc.addrAlcNodeIdx = s.regs.alc.addrAlcOffset
  owners : Owners s
  waits : Waits s

theorem Inv.init : Inv ({} : State r) := by
  refine ⟨.init, ⟨[], ⟨.nil, rfl, fun xs i ys hsplit => ?_⟩, ⟨nofun, fun _ => nofun⟩, fun i => ⟨nofun, nofun⟩, nofun, fun xs i ys hsplit => ?_, trivial⟩, fun _ => nofun, nofun, .init, .init⟩
  · simp at hsplit
  · simp [Dealc.listed, Dealc.renumbered] at hsplit

theorem Inv.step {s' : State r} (h : Inv s) (hfair : Fair s x) (hs : step s x = some s') : Inv s' := by
  obtain rfl : s.clock x = s' := Option.some.inj hs
  obtain ⟨order, hlists⟩ := h.lists
  exact ⟨h.phases.clock x, hlists.clock h.phases h.found hfair.toLegal, found_clock h.phases h.found hfair, returned_clock h.phases,
    h.owners.clock h.phases hfair, h.waits.clock h.owners h.phases hfair⟩

theorem Inv.sound (h : Inv s) : Sound s := by
  obtain ⟨order, hlists⟩ := h.lists
  have hvisited := hlists.linked.visited_eq
  have hmem : ∀ i, s.regs.ll.nodeVld i = true → i ∈ order := fun i hi => (hlists.members i).2 (.inl hi)
  refine ⟨fun i j hi hj hne y => ?_, fun i hi => ?_, fun i hi => ?_, ?_, ?_, h.returned, fun hfailed n hn => ?_, fun i => ?_, fun i => ?_⟩
  · exact hlists.placed.disjoint (hmem i hi) (hmem j hj) hne y
  · rw [hvisited]
    exact List.count_eq_one_of_mem hlists.linked.nodup (hmem i hi)
  · rw [hvisited] at hi
    exact (hlists.members i).1 hi
  · rw [hvisited]
    cases horder : order with
    | nil => exact .nil
    | cons a rest =>
      have ha : a ∈ order.head? := by rw [horder]; rfl
      rw [(hlists.linked.headPtr_eq ha).1, ← horder]
      refine (hlists.placed.laid a ha).ordered.imp fun {i j} hij => ?_
      unfold Arc.stop Arc.offset range at hij
      dsimp only at hij
      omega
  · rw [hvisited]
    exact hlists.indexed
  · rw [h.phases.preFailed, decide_eq_true_eq] at hfailed
    have hfound := h.found n hn
    unfold Alc.Found at hfound
    rw [hfailed] at hfound
    obtain ⟨hsome, hfull | hgaps⟩ := hfound
    · exact .inl hfull
    · right
      intro y
      have hidle : s.regs.dealc.state = .idle := h.phases.dealcIdle fun hser => by
        have := h.phases.alcIdle (by rw [hser]; nofun)
        rw [hfailed] at this
        cases this
      have hlive := hlists.live_iff hidle
      obtain ⟨t, ht, i, hi, hcovers⟩ := hlists.placed.not_free hlists.linked hsome (fun i hi => hgaps i ((hlive i).2 hi)) y
      exact ⟨t, ht, i, (hlive i).2 hi, hcovers⟩
  · cases howner : s.ledger.owner i with
    | none =>
      have := h.owners.unowned i howner
      omega
    | some d =>
      have := h.owners.noted i d howner
      split at this <;> omega
  · cases howner : s.ledger.owner i with
    | none =>
      have := h.waits.calm i (h.owners.unowned i howner).symm
      omega
    | some d =>
      have hcount := h.owners.noted i d howner
      by_cases hnoted : s.noted d = true
      · have hwaits := h.waits.waits i d howner hnoted
        have hpos : 0 < s.toFree d := by
          have hend := s.regs.alc.state.toEnd_pos
          unfold State.toFree
          split <;> split_ifs <;> omega
        omega
      · rw [if_neg hnoted] at hcount
        have := h.waits.calm i hcount.symm
        omega

/-- A RAM of 256 locations. -/
def locations256 : Ram := ⟨8, le_rfl, by decide⟩

/-- Four locations, a descriptor for them, and its completion. -/
def oneTransaction : List Inputs :=
  { txnValid := true, txnSize := 3 } :: List.replicate 3 { txnSize := 3 } ++
    [{ alcValid := true, alcDescIdx := 3 }, { txnCmpl := fun d => decide (d = 3) }] ++ List.replicate 3 ({} : Inputs)

theorem oneTransaction_fair : RunOk step Fair ({} : State locations256) oneTransaction := by decide +kernel

/-- All locations, and then one more. -/
def oneMore : List Inputs :=
  { txnValid := true, txnSize := 255 } :: List.replicate 3 { txnSize := 255 } ++ { txnValid := true, txnSize := 0 } :: List.replicate 8 { txnSize := 0 }

theorem oneMore_legal : RunOk step Legal ({} : State locations256) oneMore := by decide +kernel

end LibSystemCTLM.Rtl
