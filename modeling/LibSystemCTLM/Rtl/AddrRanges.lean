import LibSystemCTLM.Rtl.AddrLists

/-!
# The ranges of the nodes

The ranges lie on the ring of locations in the order of the list. A new one is put where there is room for it, and
what a deallocation leaves is in order still.
-/

namespace LibSystemCTLM.Rtl

open Foundation

namespace LinkedList

variable {w : ℕ} {ll : LinkedList w} {d : Dealc} {axlen axlen' : Idx → BitVec 8} {order xs ys : List Idx} {i k m : Idx} {addrTxnSize : BitVec 8}

/-- The locations of a node that was allocated for so many. -/
def range (ll : LinkedList w) (axlen : Idx → BitVec 8) (i : Idx) : Arc w := ⟨ll.dataStrtOffset i, (axlen i).toNat + 1⟩

/-- The ranges lie one after the other, from the head on. -/
structure Placed (ll : LinkedList w) (axlen : Idx → BitVec 8) (order : List Idx) : Prop where
  laid : ∀ i ∈ order.head?, Laid (ll.dataStrtOffset i) (ll.range axlen) order
  stops : ∀ i ∈ order, ll.dataEndOffset i = ll.dataStrtOffset i + (axlen i).setWidth w

theorem Placed.filter (h : Placed ll axlen order) (p : Vec) : Placed ll axlen (order.filter p) := by
  refine ⟨fun i hi => ?_, fun i hi => h.stops i (List.mem_filter.1 hi).1⟩
  cases horder : order with
  | nil =>
    rw [horder] at hi
    cases hi
  | cons j rest =>
    have hlaid := (h.laid j (by rw [horder]; rfl)).sublist (List.filter_sublist (p := p))
    rw [horder] at hlaid hi
    cases hkept : (j :: rest).filter p with
    | nil =>
      rw [hkept] at hi
      cases hi
    | cons a kept =>
      rw [hkept] at hi hlaid
      cases hi
      exact hlaid.rebase

theorem Placed.disjoint (h : Placed ll axlen order) {j : Idx} (hi : i ∈ order) (hj : j ∈ order) (hne : i ≠ j) (x : BitVec w) :
    ¬((ll.range axlen i).Covers x ∧ (ll.range axlen j).Covers x) := by
  cases horder : order with
  | nil =>
    rw [horder] at hi
    cases hi
  | cons a rest => exact (h.laid a (by rw [horder]; rfl)).disjoint hi hj hne x

theorem Linked.succ_eq (h : Linked ll order) (heq : order = xs ++ i :: ys) : ll.succ i = ys.head?.getD ll.headPtr := by
  unfold succ
  rw [h.links xs i ys heq]

theorem Linked.headPtr_eq (h : Linked ll order) (hi : i ∈ order.head?) : ll.headPtr = i ∧ ll.headPtrVld = true := by
  have hhead := h.head
  rw [Option.mem_def.1 hi] at hhead
  split at hhead
  · rename_i hsome
    exact ⟨Option.some.inj hhead, hsome⟩
  · cases hhead

/-- **The gap behind a node is the room behind its range.** -/
theorem Placed.gapAfter_eq (h : Placed ll axlen order) (hlinked : Linked ll order) (heq : order = xs ++ i :: ys) :
    ll.gapAfter i = room (ll.dataStrtOffset ll.headPtr) (ll.range axlen) i ys := by
  obtain ⟨j, hj⟩ : ∃ j, j ∈ order.head? := by
    rw [heq]
    cases xs <;> exact ⟨_, rfl⟩
  obtain ⟨hhead, -⟩ := hlinked.headPtr_eq hj
  have hlaid := h.laid j hj
  rw [heq, ← hhead] at hlaid
  have hstop := h.stops i (by simp [heq])
  have hend : ll.dataEndOffset i + 1 = ll.dataStrtOffset i + BitVec.ofNat w ((axlen i).toNat + 1) := by
    have hwide : (axlen i).setWidth w + 1 = BitVec.ofNat w ((axlen i).toNat + 1) := by
      rw [BitVec.ofNat_add, BitVec.ofNat_toNat]
      rfl
    rw [hstop, add_assoc, hwide]
  rw [hlaid.room_eq (Nat.succ_pos _)]
  unfold gapAfter
  rw [sub_sub, hend, hlinked.succ_eq heq]
  cases ys <;> rfl

/-- A range is put where there is room for it. -/
theorem Placed.addNode (h : Placed ll axlen (xs ++ k :: ys)) (hlinked : Linked ll (xs ++ k :: ys)) (hm : m ∉ xs ++ k :: ys)
    (hroom : addrTxnSize.toNat + 1 ≤ ll.gapAfter k) (hnew : axlen' m = addrTxnSize) (hold : ∀ i, i ≠ m → axlen' i = axlen i) :
    Placed (ll.addNode addrTxnSize k m) axlen' (xs ++ k :: m :: ys) := by
  have hne : ∀ i ∈ xs ++ k :: ys, i ≠ m := fun i hi heq => hm (heq ▸ hi)
  have hkept : ∀ i ∈ xs ++ k :: ys, ll.range axlen i = (ll.addNode addrTxnSize k m).range axlen' i := by
    intro i hi
    unfold range
    rw [hold i (hne i hi), dataStrtOffset_addNode, Function.update_of_ne (hne i hi)]
  have hadded : (ll.addNode addrTxnSize k m).range axlen' m = ⟨ll.dataEndOffset k + 1, addrTxnSize.toNat + 1⟩ := by
    unfold range
    rw [hnew, dataStrtOffset_addNode, Function.update_self]
  refine ⟨fun j hj => ?_, fun i hi => ?_⟩
  · have hhead : j ∈ (xs ++ k :: ys).head? := by
      cases xs <;> exact hj
    have hjmem : j ∈ xs ++ k :: ys := List.mem_of_mem_head? hhead
    have hlaid := h.laid j hhead
    have hgap := h.gapAfter_eq hlinked rfl
    rw [(hlinked.headPtr_eq hhead).1] at hgap
    rw [dataStrtOffset_addNode, Function.update_of_ne (hne j hjmem)]
    have hfits := hlaid.fits k (by simp)
    have hbelow : (ll.range axlen k).stop (ll.dataStrtOffset j) < 2 ^ w := by
      rw [hgap] at hroom
      unfold room at hroom
      cases ys with
      | nil =>
        rw [List.head?_nil, Option.elim_none] at hroom
        omega
      | cons y rest =>
        have hy : ((ll.range axlen y).offset (ll.dataStrtOffset j)) < 2 ^ w := BitVec.isLt _
        rw [List.head?_cons, Option.elim_some] at hroom
        omega
    have hlaid' := hlaid.congr hkept
    refine hlaid'.insert ?_ ?_ ?_
    · rw [hadded, ← hkept k (by simp)]
      unfold Arc.offset
      have hend : ll.dataEndOffset k + 1 - ll.dataStrtOffset j = BitVec.ofNat w ((ll.range axlen k).stop (ll.dataStrtOffset j)) := by
        unfold Arc.stop Arc.offset range
        rw [h.stops k (by simp), BitVec.ofNat_add, BitVec.ofNat_add, BitVec.ofNat_toNat, BitVec.ofNat_toNat, BitVec.setWidth_eq, sub_add_eq_add_sub]
        rw [add_assoc]
        rfl
      rw [hend, BitVec.toNat_ofNat, Nat.mod_eq_of_lt hbelow]
    · rw [hadded]
      refine hroom.trans (hgap.le.trans (le_of_eq ?_))
      unfold room
      rw [hkept k (by simp)]
      congr 1
      cases ys with
      | nil => rfl
      | cons y rest =>
        rw [List.head?_cons, Option.elim_some, Option.elim_some, hkept y (by simp)]
    · rw [hadded]
      exact Nat.succ_pos _
  · by_cases him : i = m
    · subst him
      rw [hnew, dataEndOffset_addNode, dataStrtOffset_addNode, Function.update_self, Function.update_self]
    · have hin : i ∈ xs ++ k :: ys := by
        simp only [List.mem_append, List.mem_cons] at hi ⊢
        tauto
      rw [hold i him, dataEndOffset_addNode, dataStrtOffset_addNode, Function.update_of_ne him, Function.update_of_ne him]
      exact h.stops i hin

/-- **A request is refused only where there is no room for it.** -/
theorem Placed.not_free (h : Placed ll axlen order) (hlinked : Linked ll order) (hsome : ll.headPtrVld = true) {n : ℕ}
    (hgaps : ∀ i ∈ order, ll.gapAfter i < n + 1) (x : BitVec w) : ∃ t ≤ n, ∃ i ∈ order, (ll.range axlen i).Covers (x + BitVec.ofNat w t) := by
  by_contra hnone
  have hhead := hlinked.head
  rw [if_pos hsome] at hhead
  cases horder : order with
  | nil =>
    rw [horder] at hhead
    cases hhead
  | cons j rest =>
    have hj : j ∈ order.head? := by rw [horder]; rfl
    have hlaid := h.laid j hj
    rw [horder] at hlaid
    obtain ⟨xs, i, ys, heq, hroom⟩ := hlaid.exists_room (n := n + 1) (x := x) (fun _ _ => Nat.succ_pos _)
      (fun t ht i hi hcovers => hnone ⟨t, Nat.le_of_lt_succ ht, i, by rwa [horder], hcovers⟩) (Nat.succ_pos n)
    rw [← horder] at heq
    have hgap := h.gapAfter_eq hlinked heq
    rw [(hlinked.headPtr_eq hj).1] at hgap
    have hlt := hgaps i (by simp [heq])
    change n + 1 ≤ room (ll.dataStrtOffset j) (ll.range axlen) i ys at hroom
    omega

end LinkedList

end LibSystemCTLM.Rtl
