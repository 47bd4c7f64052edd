import LibSystemCTLM.Rtl.AddrRanges

/-!
# What the services keep

An allocation finds what it needs before it changes the list, and a deallocation computes from the positions what the
list will be: the facts that hold in each state of the two machines, and what the next edge makes of them.
-/

namespace LibSystemCTLM.Rtl

open Foundation LinkedList

variable {w : ℕ} {ll : LinkedList w} {d : Dealc} {a : Alc w} {axlen axlen' : Idx → BitVec 8} {order : List Idx} {i k m : Idx} {addrTxnSize : BitVec 8}

/-! ### Deallocation -/

namespace Dealc

/-- The nodes that are being taken out: they are in the list until its links are put together again. -/
def removed (d : Dealc) : Vec := fun i => decide (d.state ≠ .idle) && d.addrFreeupLogicalVec i

/-- The positions are those in the list to come. -/
def renumbered (d : Dealc) : Prop := d.state = .calNextVec ∨ d.state = .updateLl

instance (d : Dealc) : Decidable d.renumbered := inferInstanceAs (Decidable (_ ∨ _))

/-- The nodes that the positions are about. -/
def listed (ll : LinkedList w) (d : Dealc) (order : List Idx) : List Idx := if d.renumbered then order.filter ll.nodeVld else order

/-- What was computed from the positions. -/
def Computed (ll : LinkedList w) (d : Dealc) : Prop :=
  match d.state with
  | .calSubcnt => ∀ i, ll.nodeVld i = true → d.dealcSubVec i = fun j => d.addrFreeupLogicalVec j && decide (ll.dataLlIdx j < ll.dataLlIdx i)
  | .calLlIdx => ∀ i, ll.nodeVld i = true → d.dealcSubcnt i =
      Fin.ofNat 16 ((List.finRange 16).countP fun j => d.addrFreeupLogicalVec j && decide (ll.dataLlIdx j < ll.dataLlIdx i))
  | .updateLl => (∀ i, d.dealcHeadVec i = (decide (ll.dataLlIdx i = 0) && ll.nodeVld i)) ∧
      ∀ i, ll.nodeVld i = true → ∀ j, d.dealcNextVec i j =
        (decide ((ll.dataLlIdx i).val ≤ 14) && decide ((ll.dataLlIdx i).val + 1 = (ll.dataLlIdx j).val) && ll.nodeVld j)
  | _ => True

theorem removed_of_idle (h : d.state = .idle) (i : Idx) : d.removed i = false := by
  unfold removed
  rw [h]
  rfl

theorem removed_of_ne (h : d.state ≠ .idle) : d.removed = d.addrFreeupLogicalVec := by
  funext i
  unfold removed
  rw [decide_eq_true h, Bool.true_and]

theorem removed_congr {d' : Dealc} (hne : d.state ≠ .idle) (hne' : d'.state ≠ .idle) (hvec : d'.addrFreeupLogicalVec = d.addrFreeupLogicalVec) :
    d'.removed = d.removed := by
  rw [removed_of_ne hne, removed_of_ne hne', hvec]

end Dealc

/-- The list and its ranges, in each state of a deallocation. -/
structure Lists (ll : LinkedList w) (d : Dealc) (axlen : Idx → BitVec 8) (order : List Idx) : Prop where
  linked : ll.Linked order
  placed : ll.Placed axlen order
  members : ∀ i, i ∈ order ↔ ll.nodeVld i = true ∨ d.removed i = true
  apart : ∀ i, d.removed i = true → ll.nodeVld i = false
  indexed : ll.Indexed (d.listed ll order)
  computed : d.Computed ll

namespace Lists

theorem live_iff (h : Lists ll d axlen order) (hidle : d.state = .idle) (i : Idx) : ll.nodeVld i = true ↔ i ∈ order := by
  rw [h.members i, Dealc.removed_of_idle hidle]
  simp

theorem indexed_of (h : Lists ll d axlen order) (hnot : ¬d.renumbered) : ll.Indexed order := by
  have hidx := h.indexed
  unfold Dealc.listed at hidx
  rwa [if_neg hnot] at hidx

/-- Nothing happens where there is no deallocation. -/
theorem idle_of {d' : Dealc} (h : Lists ll d axlen order) (hidle : d.state = .idle) (hidle' : d'.state = .idle) : Lists ll d' axlen order := by
  have hremoved : ∀ i, d'.removed i = d.removed i := fun i => by rw [Dealc.removed_of_idle hidle, Dealc.removed_of_idle hidle']
  refine ⟨h.linked, h.placed, fun i => ?_, fun i hi => ?_, ?_, ?_⟩
  · rw [hremoved]
    exact h.members i
  · rw [hremoved] at hi
    exact h.apart i hi
  · have hnot : ¬d.renumbered := by simp [Dealc.renumbered, hidle]
    have hnot' : ¬d'.renumbered := by simp [Dealc.renumbered, hidle']
    unfold Dealc.listed
    rw [if_neg hnot']
    exact h.indexed_of hnot
  · unfold Dealc.Computed
    rw [hidle']
    trivial

/-- Where there is no list there is no node. -/
theorem dead (h : Lists ll d axlen order) (hidle : d.state = .idle) (hnone : ll.headPtrVld = false) (i : Idx) : ll.nodeVld i = false := by
  have hhead := h.linked.head
  rw [hnone] at hhead
  rw [Bool.eq_false_iff]
  intro hvld
  have hmem := (h.live_iff hidle i).1 hvld
  rw [List.head?_eq_none_iff.1 hhead.symm] at hmem
  cases hmem

theorem newLl (h : Lists ll d axlen order) (hidle : d.state = .idle) (hw : 8 ≤ w) (hnone : ll.headPtrVld = false) (hnew : axlen' 0 = addrTxnSize) :
    Lists (ll.newLl addrTxnSize) d axlen' [0] := by
  have hnot : ¬d.renumbered := by simp [Dealc.renumbered, hidle]
  have hsingle : ∀ {xs ys : List Idx} {i : Idx}, [0] = xs ++ i :: ys → xs = [] ∧ i = 0 ∧ ys = [] := by
    intro xs ys i hsplit
    cases xs with
    | nil =>
      obtain ⟨rfl, rfl⟩ := List.cons.inj hsplit
      exact ⟨rfl, rfl, rfl⟩
    | cons x xs =>
      obtain ⟨-, hrest⟩ := List.cons.inj hsplit
      simp at hrest
  have hlive := h.dead hidle hnone
  refine ⟨⟨List.nodup_singleton 0, rfl, fun xs i ys hsplit => ?_⟩, ⟨fun i hi => ?_, fun i hi => ?_⟩, fun i => ?_, fun i hi => ?_, ?_, ?_⟩
  · obtain ⟨rfl, rfl, rfl⟩ := hsingle hsplit
    rfl
  · cases hi
    refine ⟨List.pairwise_singleton _ _, fun i hi => ?_⟩
    obtain rfl := List.mem_singleton.1 hi
    have hpow : 2 ^ 8 ≤ 2 ^ w := Nat.pow_le_pow_right Nat.two_pos hw
    have hsize := addrTxnSize.isLt
    unfold Arc.stop Arc.offset range
    rw [hnew, sub_self]
    change 0 + (addrTxnSize.toNat + 1) ≤ 2 ^ w
    omega
  · obtain rfl := List.mem_singleton.1 hi
    rw [hnew]
    exact (zero_add _).symm
  · rw [Dealc.removed_of_idle hidle, List.mem_singleton]
    by_cases hi : i = 0
    · subst hi
      simp [LinkedList.newLl]
    · simp [LinkedList.newLl, hi, hlive i]
  · rw [Dealc.removed_of_idle hidle] at hi
    cases hi
  · unfold Dealc.listed
    rw [if_neg hnot]
    intro xs i ys hsplit
    obtain ⟨rfl, rfl, rfl⟩ := hsingle hsplit
    rfl
  · unfold Dealc.Computed
    rw [hidle]
    trivial

theorem addNode (h : Lists ll d axlen order) (hidle : d.state = .idle) (hk : ll.nodeVld k = true) (hm : ll.nodeVld m = false)
    (hroom : addrTxnSize.toNat + 1 ≤ ll.gapAfter k) (hnew : axlen' m = addrTxnSize) (hold : ∀ i, i ≠ m → axlen' i = axlen i) :
    ∃ order', Lists (ll.addNode addrTxnSize k m) d axlen' order' := by
  have hnot : ¬d.renumbered := by simp [Dealc.renumbered, hidle]
  have hlive := h.live_iff hidle
  obtain ⟨xs, ys, rfl⟩ := List.append_of_mem ((hlive k).1 hk)
  have hmem : m ∉ xs ++ k :: ys := fun hin => by
    rw [(hlive m).2 hin] at hm
    cases hm
  have hidx := h.indexed_of hnot
  refine ⟨xs ++ k :: m :: ys, h.linked.addNode hmem, h.placed.addNode h.linked hmem hroom hnew hold, fun i => ?_, fun i hi => ?_, ?_, ?_⟩
  · rw [Dealc.removed_of_idle hidle, nodeVld_addNode]
    by_cases him : i = m
    · subst him
      simp
    · rw [Function.update_of_ne him, hlive i]
      simp [him]
  · rw [Dealc.removed_of_idle hidle] at hi
    cases hi
  · unfold Dealc.listed
    rw [if_neg hnot]
    exact hidx.addNode h.linked.nodup hlive hmem
  · unfold Dealc.Computed
    rw [hidle]
    trivial

theorem remove (h : Lists ll d axlen order) (hidle : d.state = .idle) {freeup : Vec} (hfreeup : ∀ i, freeup i = true → ll.nodeVld i = true) :
    Lists (ll.remove freeup) (d.idle freeup) axlen order := by
  have hne : (d.idle freeup).state ≠ .idle := nofun
  have hlive := h.live_iff hidle
  refine ⟨⟨h.linked.nodup, h.linked.head, h.linked.links⟩, ⟨h.placed.laid, h.placed.stops⟩, fun i => ?_, fun i hi => ?_, ?_, trivial⟩
  · rw [Dealc.removed_of_ne hne, ← hlive i]
    change _ ↔ (if freeup i = true then false else ll.nodeVld i) = true ∨ freeup i = true
    have := hfreeup i
    cases hf : freeup i with
    | false => simp
    | true => simp [this hf]
  · rw [Dealc.removed_of_ne hne] at hi
    exact if_pos hi
  · have hnot : ¬d.renumbered := by simp [Dealc.renumbered, hidle]
    exact h.indexed_of hnot

theorem calSubVec (h : Lists ll d axlen order) (hstate : d.state = .calSubVec) : Lists ll (d.calSubVec ll) axlen order := by
  have hne : d.state ≠ .idle := fun heq => by simp [heq] at hstate
  have hremoved : (d.calSubVec ll).removed = d.removed := Dealc.removed_congr hne nofun rfl
  have hnot : ¬d.renumbered := by simp [Dealc.renumbered, hstate]
  refine ⟨h.linked, h.placed, fun i => ?_, fun i hi => ?_, h.indexed_of hnot, fun i hi => ?_⟩
  · rw [hremoved]
    exact h.members i
  · rw [hremoved] at hi
    exact h.apart i hi
  · funext j
    change (if ll.nodeVld i = true then if d.addrFreeupLogicalVec j = true then _ else false else false) = (d.addrFreeupLogicalVec j && _)
    rw [if_pos hi]
    cases d.addrFreeupLogicalVec j <;> rfl

theorem calSubcnt (h : Lists ll d axlen order) (hstate : d.state = .calSubcnt) : Lists ll (d.calSubcnt ll) axlen order := by
  have hne : d.state ≠ .idle := fun heq => by simp [heq] at hstate
  have hremoved : (d.calSubcnt ll).removed = d.removed := Dealc.removed_congr hne nofun rfl
  have hnot : ¬d.renumbered := by simp [Dealc.renumbered, hstate]
  have hcomputed := h.computed
  unfold Dealc.Computed at hcomputed
  rw [hstate] at hcomputed
  refine ⟨h.linked, h.placed, fun i => ?_, fun i hi => ?_, h.indexed_of hnot, fun i hi => ?_⟩
  · rw [hremoved]
    exact h.members i
  · rw [hremoved] at hi
    exact h.apart i hi
  · change (if ll.nodeVld i = true then Fin.ofNat 16 ((List.finRange 16).countP (d.dealcSubVec i)) else 0) = _
    rw [if_pos hi, hcomputed i hi]
    rfl

theorem calLlIdx (h : Lists ll d axlen order) (hstate : d.state = .calLlIdx) : Lists (ll.renumber d) d.calLlIdx axlen order := by
  have hne : d.state ≠ .idle := fun heq => by simp [heq] at hstate
  have hremoved : d.calLlIdx.removed = d.removed := Dealc.removed_congr hne nofun rfl
  have hnot : ¬d.renumbered := by simp [Dealc.renumbered, hstate]
  have hcomputed := h.computed
  unfold Dealc.Computed at hcomputed
  rw [hstate] at hcomputed
  refine ⟨⟨h.linked.nodup, h.linked.head, h.linked.links⟩, ⟨h.placed.laid, h.placed.stops⟩, fun i => ?_, fun i hi => ?_, ?_, trivial⟩
  · rw [hremoved]
    exact h.members i
  · rw [hremoved] at hi
    exact h.apart i hi
  · have hmembers := h.members
    have hapart := h.apart
    rw [Dealc.removed_of_ne hne] at hmembers hapart
    exact (h.indexed_of hnot).renumber h.linked.nodup hmembers hapart hcomputed

theorem calNextVec (h : Lists ll d axlen order) (hstate : d.state = .calNextVec) (freeup : Vec) : Lists ll (d.calNextVec ll freeup) axlen order := by
  have hne : d.state ≠ .idle := fun heq => by simp [heq] at hstate
  have hremoved : (d.calNextVec ll freeup).removed = d.removed := Dealc.removed_congr hne nofun rfl
  have hidx := h.indexed
  unfold Dealc.listed at hidx
  rw [if_pos (show d.renumbered from .inl hstate)] at hidx
  refine ⟨h.linked, h.placed, fun i => ?_, fun i hi => ?_, hidx, fun i => rfl, fun i hi j => if_pos hi⟩
  · rw [hremoved]
    exact h.members i
  · rw [hremoved] at hi
    exact h.apart i hi

/-- **The list after a deallocation.** -/
theorem updateLl (h : Lists ll d axlen order) (hstate : d.state = .updateLl) : Lists (ll.updateLl d) d.done axlen (order.filter ll.nodeVld) := by
  have hidx := h.indexed
  unfold Dealc.listed at hidx
  rw [if_pos (show d.renumbered from .inr hstate)] at hidx
  have hcomputed := h.computed
  unfold Dealc.Computed at hcomputed
  rw [hstate] at hcomputed
  have hlive : ∀ i, ll.nodeVld i = true ↔ i ∈ order.filter ll.nodeVld := fun i => by
    rw [List.mem_filter]
    exact (and_iff_right_of_imp fun hi => (h.members i).2 (.inl hi)).symm
  have hplaced := h.placed.filter ll.nodeVld
  have hidle : ∀ i, d.done.removed i = false := Dealc.removed_of_idle rfl
  refine ⟨Linked.updateLl (h.linked.nodup.filter _) hidx hlive hcomputed.1 hcomputed.2, ⟨hplaced.laid, hplaced.stops⟩, fun i => ?_, fun i hi => ?_, hidx, trivial⟩
  · rw [hidle, ← hlive i]
    exact (or_iff_left Bool.false_ne_true).symm
  · rw [hidle] at hi
    cases hi

end Lists

/-! ### Allocation -/

namespace Alc

/-- What the comparison finds behind a node. -/
def seen (ll : LinkedList w) (i : Idx) : ℕ := ll.gapAfter i + if ll.wraps i = true then 2 ^ w else 0

/-- The difference that will be taken. -/
def selected (ll : LinkedList w) (a : Alc w) (i : Idx) : BitVec (w + 1) :=
  if ll.nextVld i = true then if a.isWrapAround i = false then a.diffOffsetCurrNextNowrap i else a.diffOffsetCurrNextWrap i
  else if a.isWrapAround i = false then a.diffOffsetLastHeadNowrap i else a.diffOffsetLastHeadWrap i

/-- What was found, for a request. -/
def Found (ll : LinkedList w) (a : Alc w) (addrTxnSize : BitVec 8) : Prop :=
  match a.state with
  | .idle => True
  | .newLl => ll.headPtrVld = false
  | .udLl => ll.headPtrVld = true
  | .calDiffOffset => ll.headPtrVld = true ∧ ∀ i, ll.nodeVld i = true → (a.selected ll i).toNat = seen ll i
  | .calSpaceNode => ll.headPtrVld = true ∧ ∀ i, (a.diffOffset i).toNat = if ll.nodeVld i = true then seen ll i else 0
  | .checkAvail => ll.headPtrVld = true ∧
      (∀ i, a.spaceAvail i = (ll.nodeVld i && decide (addrTxnSize.toNat + 1 ≤ seen ll i))) ∧ ∀ i, a.nodeAvail i = !ll.nodeVld i
  | .failed => ll.headPtrVld = true ∧ ((∀ i, ll.nodeVld i = true) ∨ ∀ i, ll.nodeVld i = true → ll.gapAfter i < addrTxnSize.toNat + 1)
  | .calIdx => ll.nodeVld a.posNodeVec.oneHotIdx.1 = true ∧ addrTxnSize.toNat + 1 ≤ ll.gapAfter a.posNodeVec.oneHotIdx.1 ∧
      ll.nodeVld a.newNodeVec.oneHotIdx.1 = false
  | .addNode => ll.nodeVld a.posNodeIdx = true ∧ addrTxnSize.toNat + 1 ≤ ll.gapAfter a.posNodeIdx ∧ ll.nodeVld a.newNodeIdx = false

/-- A gap over the end of the RAM that is too small is not what is taken: another node comes first. -/
def Roomy (ll : LinkedList w) (addrTxnSize : BitVec 8) : Prop :=
  (∃ i, ll.nodeVld i = false) → ∀ i, ll.nodeVld i = true → ll.wraps i = true → ll.gapAfter i < addrTxnSize.toNat + 1 →
    ∃ j < i, ll.nodeVld j = true ∧ addrTxnSize.toNat + 1 ≤ ll.gapAfter j

instance (ll : LinkedList w) (addrTxnSize : BitVec 8) : Decidable (Roomy ll addrTxnSize) := inferInstanceAs (Decidable (_ → ∀ _, _))

theorem found_idle : (a.idle ll).Found ll addrTxnSize := by
  unfold Alc.idle
  split
  · rename_i hnone
    exact hnone
  · rename_i hsome
    exact Bool.eq_true_of_not_eq_false hsome

/-- The differences, with the wrong one over the end of the RAM. -/
theorem found_udLl (hw : w ≤ 31) (hsome : ll.headPtrVld = true) : (a.udLl ll).Found ll addrTxnSize := by
  refine ⟨hsome, fun i hi => ?_⟩
  have hdiff : ∀ strt stop : BitVec w, ((if (!decide (stop < strt)) = false then nowrap strt stop else wrap strt stop)).toNat =
      (strt - stop - 1).toNat + if (!decide (stop < strt)) = true then 2 ^ w else 0 := by
    intro strt stop
    by_cases hlt : stop < strt
    · simp [hlt, toNat_nowrap hlt]
    · have hle : strt ≤ stop := BitVec.not_lt.1 hlt
      simp [hlt, toNat_wrap hw hle]
  unfold selected seen gapAfter wraps succ link
  simp only [Alc.udLl, hi, if_true]
  cases hnext : ll.nextVld i with
  | false => exact hdiff _ _
  | true => exact hdiff _ _

theorem Found.calDiffOffset (h : a.Found ll addrTxnSize) (hstate : a.state = .calDiffOffset) : (a.calDiffOffset ll).Found ll addrTxnSize := by
  unfold Found at h
  rw [hstate] at h
  refine ⟨h.1, fun i => ?_⟩
  cases hi : ll.nodeVld i with
  | false =>
    change (if ll.nodeVld i = true then _ else 0 : BitVec (w + 1)).toNat = _
    rw [hi]
    rfl
  | true =>
    change (if ll.nodeVld i = true then a.selected ll i else 0 : BitVec (w + 1)).toNat = _
    rw [if_pos hi, h.2 i hi]
    rfl

theorem Found.calSpaceNode (h : a.Found ll addrTxnSize) (hstate : a.state = .calSpaceNode) : (a.calSpaceNode ll addrTxnSize).Found ll addrTxnSize := by
  unfold Found at h
  rw [hstate] at h
  refine ⟨h.1, fun i => ?_, fun i => rfl⟩
  change decide (addrTxnSize.toNat + 1 ≤ (a.diffOffset i).toNat) = _
  rw [h.2 i]
  cases ll.nodeVld i <;> simp

theorem Found.checkAvail (h : a.Found ll addrTxnSize) (hstate : a.state = .checkAvail) (hroomy : Roomy ll addrTxnSize) :
    a.checkAvail.Found ll addrTxnSize := by
  unfold Found at h
  rw [hstate] at h
  obtain ⟨hsome, hspace, hnode⟩ := h
  have hseen : ∀ i, ll.gapAfter i ≤ seen ll i := fun i => Nat.le_add_right _ _
  by_cases hboth : (a.nodeAvail.any && a.spaceAvail.any) = true
  · obtain ⟨hfree, hany⟩ := Bool.and_eq_true_iff.1 hboth
    obtain ⟨hpos, hfirst⟩ := Vec.oneHotIdx_lowest hany
    obtain ⟨hnew, -⟩ := Vec.oneHotIdx_lowest hfree
    rw [hspace, Bool.and_eq_true_iff, decide_eq_true_eq] at hpos
    rw [hnode, Bool.not_eq_true'] at hnew
    unfold Found Alc.checkAvail
    simp only [hboth, if_true]
    refine ⟨hpos.1, ?_, hnew⟩
    by_contra hsmall
    rw [not_le] at hsmall
    have hwraps : ll.wraps a.spaceAvail.lowest.oneHotIdx.1 = true := by
      by_contra hnot
      have := hpos.2
      unfold seen at this
      rw [if_neg hnot] at this
      omega
    obtain ⟨j, hj, hlive, hlarge⟩ := hroomy ⟨_, hnew⟩ _ hpos.1 hwraps hsmall
    have havail : a.spaceAvail j = true := by
      rw [hspace, hlive, Bool.true_and]
      exact decide_eq_true (hlarge.trans (hseen j))
    rw [hfirst j hj] at havail
    cases havail
  · unfold Found Alc.checkAvail
    simp only [hboth]
    refine ⟨hsome, ?_⟩
    rw [Bool.and_eq_true_iff, not_and_or, Bool.not_eq_true, Bool.not_eq_true] at hboth
    refine hboth.imp (fun hfull i => ?_) fun hnone i hi => ?_
    · by_contra hdead
      have hset : a.nodeAvail.any = true := Vec.any_eq_true.2 ⟨i, by rw [hnode]; simpa using hdead⟩
      rw [hfull] at hset
      cases hset
    · by_contra hlarge
      have hset : a.spaceAvail.any = true := Vec.any_eq_true.2 ⟨i, by
        rw [hspace, hi, Bool.true_and]
        exact decide_eq_true ((not_lt.1 hlarge).trans (hseen i))⟩
      rw [hnone] at hset
      cases hset

theorem Found.calIdx (h : a.Found ll addrTxnSize) (hstate : a.state = .calIdx) : a.calIdx.Found ll addrTxnSize := by
  unfold Found at h
  rw [hstate] at h
  exact h

end Alc

end LibSystemCTLM.Rtl
