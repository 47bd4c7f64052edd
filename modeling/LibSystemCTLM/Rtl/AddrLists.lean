import LibSystemCTLM.Foundation.Ring
import LibSystemCTLM.Rtl.AddrAllocator
import Mathlib.Order.WellFounded
import Mathlib.Tactic.Ring

/-!
# The list of the nodes

The list that starts at `head_ptr` (`LinkedList.visited`) against the list of the nodes that it should be, and what an
allocation and a deallocation make of it.
-/

namespace LibSystemCTLM.Rtl

open Foundation

/-! ### Vectors -/

namespace Vec

variable {v : Vec} {i : Idx}

theorem any_eq_true : v.any = true ↔ ∃ i, v i = true := decide_eq_true_iff

theorem lowest_eq_true : v.lowest i = true ↔ v i = true ∧ ∀ j < i, v j = false := by
  unfold lowest neg
  cases hv : v i with
  | false => simp
  | true => simp

theorem oneHotIdx_of_single (hi : v i = true) (hone : ∀ j, v j = true → j = i) : v.oneHotIdx = (i, true) := by
  have hfilter : (List.finRange 16).filter v = [i] := by
    have hall : ∀ j ∈ (List.finRange 16).filter v, j = i := fun j hj => hone j (List.mem_filter.1 hj).2
    have hmem : i ∈ (List.finRange 16).filter v := List.mem_filter.2 ⟨List.mem_finRange i, hi⟩
    have hnodup : ((List.finRange 16).filter v).Nodup := (List.nodup_finRange 16).filter _
    have hrep := List.eq_replicate_of_mem hall
    rw [hrep] at hnodup hmem ⊢
    have hlen := List.nodup_replicate.1 hnodup
    have hpos := List.length_pos_of_mem hmem
    rw [List.length_replicate] at hpos
    rw [show ((List.finRange 16).filter v).length = 1 by omega, List.replicate_one]
  unfold oneHotIdx
  rw [hfilter]

theorem oneHotIdx_of_none (hnone : ∀ j, v j = false) : v.oneHotIdx = (0, false) := by
  have hfilter : (List.finRange 16).filter v = [] := List.filter_eq_nil_iff.2 fun j _ => by simp [hnone j]
  unfold oneHotIdx
  rw [hfilter]

theorem oneHotIdx_lowest (h : v.any = true) : v v.lowest.oneHotIdx.1 = true ∧ ∀ j < v.lowest.oneHotIdx.1, v j = false := by
  obtain ⟨k, hk⟩ := any_eq_true.1 h
  obtain ⟨i, hi, hmin⟩ := WellFounded.has_min (wellFounded_lt : WellFounded fun i j : Idx => i < j) { i | v i = true } ⟨k, hk⟩
  have hlow : ∀ j < i, v j = false := fun j hj => Bool.eq_false_iff.2 fun hv => hmin j hv hj
  have hsingle : v.lowest.oneHotIdx = (i, true) := by
    refine oneHotIdx_of_single (lowest_eq_true.2 ⟨hi, hlow⟩) fun j hj => ?_
    obtain ⟨hv, hbelow⟩ := lowest_eq_true.1 hj
    obtain hlt | heq | hgt := lt_trichotomy i j
    · have hset : v i = true := hi
      rw [hbelow i hlt] at hset
      cases hset
    · exact heq.symm
    · exact absurd hgt (hmin j hv)
  rw [hsingle]
  exact ⟨hi, hlow⟩

end Vec

/-! ### Lists -/

section Split

variable {α : Type*} {xs ys us vs : List α} {i k m : α}

/-- Where an entry is in a list into which another one was put. -/
theorem split_insert (h : xs ++ k :: m :: ys = us ++ i :: vs) :
    (∃ cs, xs = us ++ i :: cs ∧ vs = cs ++ k :: m :: ys) ∨ (i = k ∧ us = xs ∧ vs = m :: ys) ∨ (i = m ∧ us = xs ++ [k] ∧ vs = ys) ∨
      ∃ as, ys = as ++ i :: vs ∧ us = xs ++ k :: m :: as := by
  obtain ⟨as, hus, hrest⟩ | ⟨cs, hxs, hrest⟩ := List.append_eq_append_iff.1 h
  · cases as with
    | nil =>
      obtain ⟨rfl, rfl⟩ := List.cons.inj hrest
      exact .inr (.inl ⟨rfl, by simpa using hus, rfl⟩)
    | cons a as =>
      obtain ⟨rfl, htail⟩ := List.cons.inj hrest
      cases as with
      | nil =>
        obtain ⟨rfl, rfl⟩ := List.cons.inj htail
        exact .inr (.inr (.inl ⟨rfl, hus, rfl⟩))
      | cons a' as =>
        obtain ⟨rfl, hlast⟩ := List.cons.inj htail
        exact .inr (.inr (.inr ⟨as, hlast, hus⟩))
  · cases cs with
    | nil =>
      obtain ⟨rfl, rfl⟩ := List.cons.inj hrest
      exact .inr (.inl ⟨rfl, by simpa using hxs.symm, rfl⟩)
    | cons c cs =>
      obtain ⟨rfl, rfl⟩ := List.cons.inj hrest
      exact .inl ⟨cs, hxs, rfl⟩

/-- Where an entry that is kept was in the list. -/
theorem split_filter {p : α → Bool} {l : List α} (h : l.filter p = us ++ i :: vs) :
    ∃ xs ys, l = xs ++ i :: ys ∧ xs.filter p = us ∧ ys.filter p = vs := by
  obtain ⟨l₁, l₂, rfl, rfl, hrest⟩ := List.filter_eq_append_iff.1 h
  obtain ⟨zs, ys, rfl, hzs, hi, rfl⟩ := List.filter_eq_cons_iff.1 hrest
  refine ⟨l₁ ++ zs, ys, by rw [List.append_assoc], ?_, rfl⟩
  rw [List.filter_append, List.filter_eq_nil_iff.2 hzs, List.append_nil]

theorem split_inj {j : α} {l : List α} (hi : l = xs ++ i :: ys) (hj : l = us ++ j :: vs) (hlen : xs.length = us.length) : i = j ∧ ys = vs := by
  obtain ⟨_, hrest⟩ := List.append_inj (hi.symm.trans hj) hlen
  exact List.cons.inj hrest

end Split

namespace LinkedList

variable {w : ℕ} {ll : LinkedList w} {order xs ys : List Idx} {i k m : Idx}

/-- The nodes from one on, up to so many. -/
def walk (ll : LinkedList w) : ℕ → Idx → List Idx
  | 0, _ => []
  | n + 1, i => i :: if ll.nextVld i = true then ll.walk n (ll.next i) else []

/-- The nodes of the list. -/
def visited (ll : LinkedList w) : List Idx := if ll.headPtrVld = true then ll.walk 16 ll.headPtr else []

@[simp] theorem dataLlIdx_addNode (addrTxnSize : BitVec 8) (k m : Idx) : (ll.addNode addrTxnSize k m).dataLlIdx =
    Function.update (fun i => if ll.dataLlIdx k < ll.dataLlIdx i ∧ ll.nodeVld i = true then ll.dataLlIdx i + 1 else ll.dataLlIdx i) m (ll.dataLlIdx k + 1) := rfl

@[simp] theorem nodeVld_newLl (addrTxnSize : BitVec 8) : (ll.newLl addrTxnSize).nodeVld = Function.update ll.nodeVld 0 true := rfl

@[simp] theorem nodeVld_addNode (addrTxnSize : BitVec 8) (k m : Idx) : (ll.addNode addrTxnSize k m).nodeVld = Function.update ll.nodeVld m true := rfl

@[simp] theorem dataStrtOffset_addNode (addrTxnSize : BitVec 8) (k m : Idx) :
    (ll.addNode addrTxnSize k m).dataStrtOffset = Function.update ll.dataStrtOffset m (ll.dataEndOffset k + 1) := rfl

@[simp] theorem dataEndOffset_addNode (addrTxnSize : BitVec 8) (k m : Idx) : (ll.addNode addrTxnSize k m).dataEndOffset =
    Function.update ll.dataEndOffset m (ll.dataEndOffset k + 1 + addrTxnSize.setWidth w) := rfl

@[simp] theorem dataLlIdx_renumber (d : Dealc) (i : Idx) :
    (ll.renumber d).dataLlIdx i = if ll.nodeVld i = true then ll.dataLlIdx i - d.dealcSubcnt i else 0 := rfl

/-- What comes behind a node, if there is something. -/
def link (ll : LinkedList w) (i : Idx) : Option Idx := if ll.nextVld i = true then some (ll.next i) else none

/-- The list has these nodes, in this order. -/
structure Linked (ll : LinkedList w) (order : List Idx) : Prop where
  nodup : order.Nodup
  head : (if ll.headPtrVld = true then some ll.headPtr else none) = order.head?
  links : ∀ xs i ys, order = xs ++ i :: ys → ll.link i = ys.head?

/-- `data_ll_idx` is the position of each node. -/
def Indexed (ll : LinkedList w) (order : List Idx) : Prop := ∀ xs i ys, order = xs ++ i :: ys → (ll.dataLlIdx i).val = xs.length

theorem length_le_of_nodup (h : order.Nodup) : order.length ≤ 16 := by
  have hcard := h.length_le_card
  rwa [Fintype.card_fin] at hcard

theorem Linked.walk_eq (h : Linked ll order) : ∀ (n : ℕ) {xs ys : List Idx} {i : Idx}, order = xs ++ i :: ys → ys.length < n → ll.walk n i = i :: ys
  | 0, _, _, _, _, hlt => absurd hlt (Nat.not_lt_zero _)
  | n + 1, xs, ys, i, heq, hlt => by
    have hlink := h.links xs i ys heq
    unfold link at hlink
    unfold walk
    cases ys with
    | nil =>
      split at hlink
      · cases hlink
      · rename_i hnone
        rw [if_neg hnone]
    | cons y ys =>
      split at hlink
      · rename_i hsome
        rw [if_pos hsome, Option.some.inj hlink]
        have hrest : order = (xs ++ [i]) ++ y :: ys := by simp [heq]
        rw [h.walk_eq n hrest (Nat.lt_of_succ_lt_succ hlt)]
      · cases hlink

/-- **The list that starts at the head is the one it should be.** -/
theorem Linked.visited_eq (h : Linked ll order) : ll.visited = order := by
  have hhead := h.head
  unfold visited
  cases order with
  | nil =>
    split at hhead
    · cases hhead
    · rename_i hnone
      exact if_neg hnone
  | cons i ys =>
    split at hhead
    · rename_i hsome
      have hlen := length_le_of_nodup h.nodup
      rw [if_pos hsome, Option.some.inj hhead, h.walk_eq 16 (List.nil_append _).symm hlen]
    · cases hhead

theorem Indexed.lt_iff (h : Indexed ll (xs ++ k :: ys)) (hnodup : (xs ++ k :: ys).Nodup) (hi : i ∈ xs ++ k :: ys) : ll.dataLlIdx k < ll.dataLlIdx i ↔ i ∈ ys := by
  have hk : (ll.dataLlIdx k).val = xs.length := h xs k ys rfl
  rw [Fin.lt_def, hk]
  constructor
  · intro hlt
    by_contra hnot
    obtain hin | hin := List.mem_append.1 hi
    · obtain ⟨us, vs, rfl⟩ := List.append_of_mem hin
      have hpos := h us i (vs ++ k :: ys) (by simp)
      rw [hpos, List.length_append] at hlt
      omega
    · obtain rfl | hin := List.mem_cons.1 hin
      · omega
      · exact hnot hin
  · intro hin
    obtain ⟨us, vs, rfl⟩ := List.append_of_mem hin
    have hpos := h (xs ++ k :: us) i vs (by simp)
    rw [hpos, List.length_append, List.length_cons]
    omega

theorem Indexed.inj {j : Idx} (h : Indexed ll order) (hi : i ∈ order) (hj : j ∈ order) (heq : ll.dataLlIdx i = ll.dataLlIdx j) : i = j := by
  obtain ⟨us, vs, hus⟩ := List.append_of_mem hi
  obtain ⟨as, bs, has⟩ := List.append_of_mem hj
  refine (split_inj hus has ?_).1
  rw [← h us i vs hus, ← h as j bs has, heq]

/-! ### A new node -/

section AddNode

variable {addrTxnSize : BitVec 8}

theorem link_addNode (hne : m ≠ k) : (ll.addNode addrTxnSize k m).link i = if i = k then some m else if i = m then ll.link k else ll.link i := by
  unfold addNode link
  dsimp only
  by_cases hik : i = k
  · subst hik
    simp
  · by_cases him : i = m
    · subst him
      simp only [Function.update_of_ne hik, Function.update_self, if_neg hik, if_true]
      cases hnext : ll.nextVld k <;> simp
    · simp [hik, him]

theorem Linked.addNode (h : Linked ll (xs ++ k :: ys)) (hm : m ∉ xs ++ k :: ys) : Linked (ll.addNode addrTxnSize k m) (xs ++ k :: m :: ys) := by
  have hne : m ≠ k := fun heq => hm (by simp [heq])
  have hother : ∀ i ∈ xs ++ k :: ys, i ≠ m := fun i hi heq => hm (heq ▸ hi)
  have hk : k ∉ xs ∧ k ∉ ys := by
    have := h.nodup
    rw [List.nodup_append, List.nodup_cons] at this
    exact ⟨fun hin => this.2.2 k hin k List.mem_cons_self rfl, this.2.1.1⟩
  refine ⟨?_, ?_, fun us i vs hsplit => ?_⟩
  · have hperm : (xs ++ k :: m :: ys).Perm (m :: (xs ++ k :: ys)) := by
      rw [List.append_cons, List.append_cons xs k ys]
      exact List.perm_middle
    exact hperm.nodup_iff.2 (List.nodup_cons.2 ⟨hm, h.nodup⟩)
  · have hhead := h.head
    change (if ll.headPtrVld = true then some ll.headPtr else none) = _
    rw [hhead]
    cases xs <;> rfl
  · rw [link_addNode hne]
    obtain ⟨cs, hxs, hvs⟩ | ⟨hik, hus, hvs⟩ | ⟨him, hus, hvs⟩ | ⟨as, hys, hus⟩ := split_insert hsplit
    · have hik : i ≠ k := fun heq => hk.1 (by simp [hxs, heq])
      have hold := h.links us i (cs ++ k :: ys) (by simp [hxs])
      rw [if_neg hik, if_neg (hother i (by simp [hxs])), hold, hvs]
      cases cs <;> rfl
    · rw [if_pos hik, hvs]
      rfl
    · rw [him, if_neg hne, if_pos rfl, hvs]
      exact h.links xs k ys rfl
    · have hik : i ≠ k := fun heq => hk.2 (by simp [hys, heq])
      rw [if_neg hik, if_neg (hother i (by simp [hys]))]
      exact h.links (xs ++ k :: as) i vs (by simp [hys])

/-- The positions behind it move on by one. -/
theorem Indexed.addNode (h : Indexed ll (xs ++ k :: ys)) (hnodup : (xs ++ k :: ys).Nodup) (hlive : ∀ i, ll.nodeVld i = true ↔ i ∈ xs ++ k :: ys)
    (hm : m ∉ xs ++ k :: ys) : Indexed (ll.addNode addrTxnSize k m) (xs ++ k :: m :: ys) := by
  have hroom : (xs ++ k :: m :: ys).length ≤ 16 := by
    have hperm : (xs ++ k :: m :: ys).Perm (m :: (xs ++ k :: ys)) := by
      rw [List.append_cons, List.append_cons xs k ys]
      exact List.perm_middle
    exact length_le_of_nodup (hperm.nodup_iff.2 (List.nodup_cons.2 ⟨hm, hnodup⟩))
  have hlen : xs.length + (ys.length + 2) ≤ 16 := by
    rw [List.length_append, List.length_cons, List.length_cons] at hroom
    exact hroom
  have hold : ∀ i ∈ xs ++ k :: ys, (ll.addNode addrTxnSize k m).dataLlIdx i = if i ∈ ys then ll.dataLlIdx i + 1 else ll.dataLlIdx i := by
    intro i hi
    have him : i ≠ m := fun heq => hm (heq ▸ hi)
    rw [dataLlIdx_addNode, Function.update_of_ne him]
    exact if_congr ((and_iff_left ((hlive i).2 hi)).trans (h.lt_iff hnodup hi)) rfl rfl
  have hadd : ∀ {a : Idx}, a.val < 15 → (a + 1).val = a.val + 1 := fun {a} ha => Fin.val_add_one_of_lt (Fin.lt_def.2 ha)
  have hnot : ∀ i ∈ xs ++ [k], i ∉ ys := by
    intro i hi hys
    rw [List.append_cons] at hnodup
    exact (List.nodup_append.1 hnodup).2.2 i hi i hys rfl
  intro us i vs hsplit
  obtain ⟨cs, hxs, -⟩ | ⟨rfl, rfl, -⟩ | ⟨rfl, rfl, -⟩ | ⟨as, hys, rfl⟩ := split_insert hsplit
  · rw [hold i (by simp [hxs]), if_neg (hnot i (by simp [hxs]))]
    exact h us i (cs ++ k :: ys) (by simp [hxs])
  · rw [hold i (by simp), if_neg (hnot i (by simp))]
    exact h us i ys rfl
  · have hk := h xs k ys rfl
    rw [dataLlIdx_addNode, Function.update_self, hadd (by omega), hk, List.length_append]
    rfl
  · have hi := h (xs ++ k :: as) i vs (by simp [hys])
    rw [List.length_append, List.length_cons] at hi
    have hlt : as.length < ys.length := by simp [hys]
    rw [hold i (by simp [hys]), if_pos (by simp [hys]), hadd (by omega), hi, List.length_append, List.length_cons, List.length_cons]
    omega

end AddNode

/-! ### Nodes that are taken out -/

section UpdateLl

variable {d : Dealc}

/-- How many nodes go before a node that stays. -/
theorem countP_before {p : Vec} (hnodup : (xs ++ i :: ys).Nodup) (hp : ∀ j, p j = true → j ∈ xs ++ i :: ys) (hidx : Indexed ll (xs ++ i :: ys)) :
    (List.finRange 16).countP (fun j => p j && decide (ll.dataLlIdx j < ll.dataLlIdx i)) = xs.countP p := by
  have hbefore : ∀ j ∈ xs ++ i :: ys, (ll.dataLlIdx j < ll.dataLlIdx i ↔ j ∈ xs) := by
    intro j hj
    constructor
    · intro hlt
      obtain hin | hin := List.mem_append.1 hj
      · exact hin
      · obtain rfl | hin := List.mem_cons.1 hin
        · exact absurd hlt (lt_irrefl _)
        · exact absurd hlt (lt_asymm ((hidx.lt_iff hnodup hj).2 hin))
    · intro hin
      obtain ⟨us, vs, rfl⟩ := List.append_of_mem hin
      have hi := hidx _ i ys rfl
      have hpos := hidx us j (vs ++ i :: ys) (by simp)
      rw [Fin.lt_def, hi, hpos, List.length_append, List.length_cons]
      omega
  rw [List.countP_eq_length_filter, List.countP_eq_length_filter]
  refine List.Perm.length_eq ((List.perm_ext_iff_of_nodup ((List.nodup_finRange 16).filter _) ((List.nodup_append.1 hnodup).1.filter _)).2 fun j => ?_)
  simp only [List.mem_filter, List.mem_finRange, true_and, Bool.and_eq_true, decide_eq_true_eq]
  constructor
  · rintro ⟨hpj, hlt⟩
    exact ⟨(hbefore j (hp j hpj)).1 hlt, hpj⟩
  · rintro ⟨hin, hpj⟩
    exact ⟨hpj, (hbefore j (hp j hpj)).2 hin⟩

/-- The positions among the nodes that stay. -/
theorem Indexed.renumber {p : Vec} (h : Indexed ll order) (hnodup : order.Nodup) (hmem : ∀ i, i ∈ order ↔ ll.nodeVld i = true ∨ p i = true)
    (hapart : ∀ i, p i = true → ll.nodeVld i = false)
    (hcount : ∀ i, ll.nodeVld i = true → d.dealcSubcnt i = Fin.ofNat 16 ((List.finRange 16).countP fun j => p j && decide (ll.dataLlIdx j < ll.dataLlIdx i))) :
    Indexed (ll.renumber d) (order.filter ll.nodeVld) := by
  intro us i vs hsplit
  have hlive : ll.nodeVld i = true := (List.mem_filter.1 (hsplit ▸ List.mem_append_right us List.mem_cons_self)).2
  obtain ⟨xs, ys, rfl, rfl, -⟩ := split_filter hsplit
  have hi := h xs i ys rfl
  have hsum : xs.length = (xs.filter ll.nodeVld).length + xs.countP p := by
    rw [List.length_eq_countP_add_countP ll.nodeVld (l := xs), List.countP_eq_length_filter]
    congr 1
    refine List.countP_congr fun j hj => ?_
    have hjmem := (hmem j).1 (List.mem_append_left _ hj)
    constructor
    · intro hdead
      exact hjmem.resolve_left (by simpa using hdead)
    · intro hp
      simp [hapart j hp]
  have hbefore := countP_before hnodup (fun j hp => (hmem j).2 (.inr hp)) h
  rw [dataLlIdx_renumber, if_pos hlive, hcount i hlive, hbefore]
  have hle : Fin.ofNat 16 (xs.countP p) ≤ ll.dataLlIdx i := by
    rw [Fin.le_def, Fin.val_ofNat, hi, Nat.mod_eq_of_lt (by omega)]
    omega
  rw [Fin.sub_val_of_le hle, Fin.val_ofNat, hi, Nat.mod_eq_of_lt (by omega)]
  omega

theorem link_updateLl (h : ll.nodeVld i = true) :
    (ll.updateLl d).link i = if (d.dealcNextVec i).oneHotIdx.2 = true then some (d.dealcNextVec i).oneHotIdx.1 else none := by
  unfold LinkedList.updateLl link
  simp [h]

/-- **The list is put together from the positions.** -/
theorem Linked.updateLl (hnodup : order.Nodup) (hidx : Indexed ll order) (hlive : ∀ i, ll.nodeVld i = true ↔ i ∈ order)
    (hhead : ∀ i, d.dealcHeadVec i = (decide (ll.dataLlIdx i = 0) && ll.nodeVld i))
    (hnext : ∀ i, ll.nodeVld i = true → ∀ j,
      d.dealcNextVec i j = (decide ((ll.dataLlIdx i).val ≤ 14) && decide ((ll.dataLlIdx i).val + 1 = (ll.dataLlIdx j).val) && ll.nodeVld j)) :
    Linked (ll.updateLl d) order := by
  refine ⟨hnodup, ?_, fun xs i ys hsplit => ?_⟩
  · unfold LinkedList.updateLl
    dsimp only
    cases horder : order with
    | nil =>
      have hnone : ∀ i, d.dealcHeadVec i = false := fun i => by
        rw [hhead, Bool.and_eq_false_iff]
        exact .inr (Bool.eq_false_iff.2 fun hvld => by simpa [horder] using (hlive i).1 hvld)
      rw [Vec.oneHotIdx_of_none hnone]
      rfl
    | cons i rest =>
      have hi : ll.dataLlIdx i = 0 := Fin.ext (hidx [] i rest horder)
      have hmem : i ∈ order := by simp [horder]
      have hset : d.dealcHeadVec i = true := by
        rw [hhead, hi, (hlive i).2 hmem]
        rfl
      rw [Vec.oneHotIdx_of_single hset fun j hj => ?_]
      · rfl
      · rw [hhead, Bool.and_eq_true_iff] at hj
        exact hidx.inj ((hlive j).1 hj.2) hmem ((of_decide_eq_true hj.1).trans hi.symm)
  · have hmem : i ∈ order := by simp [hsplit]
    have hvld := (hlive i).2 hmem
    have hpos := hidx xs i ys hsplit
    rw [link_updateLl hvld]
    cases hys : ys with
    | nil =>
      have hnone : ∀ j, d.dealcNextVec i j = false := fun j => by
        rw [hnext i hvld, Bool.and_eq_false_iff, or_iff_not_imp_right]
        intro hj
        rw [Bool.not_eq_false] at hj
        obtain ⟨as, bs, hj'⟩ := List.append_of_mem ((hlive j).1 hj)
        have hposj := hidx as j bs hj'
        have hlenj : xs.length + 1 = order.length := by simp [hsplit, hys]
        rw [Bool.and_eq_false_iff, or_iff_not_imp_left]
        intro _
        refine decide_eq_false fun heq => ?_
        have : as.length < order.length := by simp [hj']
        omega
      rw [Vec.oneHotIdx_of_none hnone]
      rfl
    | cons y rest =>
      have hsplity : order = (xs ++ [i]) ++ y :: rest := by simp [hsplit, hys]
      have hposy := hidx _ y rest hsplity
      have hmemy : y ∈ order := by simp [hsplity]
      have hset : d.dealcNextVec i y = true := by
        rw [List.length_append, List.length_singleton] at hposy
        rw [hnext i hvld, (hlive y).2 hmemy, hposy, hpos, Bool.and_true, Bool.and_eq_true_iff]
        exact ⟨decide_eq_true (by omega), decide_eq_true rfl⟩
      rw [Vec.oneHotIdx_of_single hset fun j hj => ?_]
      · rfl
      · rw [hnext i hvld, Bool.and_eq_true_iff, Bool.and_eq_true_iff] at hj
        refine hidx.inj ((hlive j).1 hj.2) hmemy (Fin.ext ?_)
        rw [← of_decide_eq_true hj.1.2, hposy, hpos, List.length_append]
        rfl

end UpdateLl

/-! ### Gaps -/

/-- The node that comes next on the ring. -/
def succ (ll : LinkedList w) (i : Idx) : Idx := (ll.link i).getD ll.headPtr

/-- The free locations behind a node. -/
def gapAfter (ll : LinkedList w) (i : Idx) : ℕ := (ll.dataStrtOffset (ll.succ i) - ll.dataEndOffset i - 1).toNat

/-- The end of the RAM is behind a node, and before the next one. -/
def wraps (ll : LinkedList w) (i : Idx) : Bool := !decide (ll.dataEndOffset i < ll.dataStrtOffset (ll.succ i))

end LinkedList

namespace Alc

variable {w : ℕ} {strt stop : BitVec w}

theorem toNat_sub_sub_of_lt (h : stop < strt) : (strt - stop - 1).toNat = strt.toNat - stop.toNat - 1 := by
  have hlt : stop.toNat < strt.toNat := h
  have hstop : stop ≤ strt := Nat.le_of_lt hlt
  have hw : 1 < 2 ^ w := by
    have := strt.isLt
    omega
  have hone : (1 : BitVec w).toNat = 1 := Nat.mod_eq_of_lt hw
  have hle : 1 ≤ strt - stop := by
    rw [BitVec.le_def, hone, BitVec.toNat_sub_of_le hstop]
    omega
  rw [BitVec.toNat_sub_of_le hle, BitVec.toNat_sub_of_le hstop, hone]

theorem toNat_sub_sub_of_le (h : strt ≤ stop) : (strt - stop - 1).toNat = 2 ^ w - 1 - (stop.toNat - strt.toNat) := by
  have hneg : strt - stop - 1 = ~~~(stop - strt) := by
    rw [BitVec.not_eq_neg_add, neg_sub]
    rfl
  rw [hneg, BitVec.toNat_not, BitVec.toNat_sub_of_le h]

theorem toNat_nowrap (h : stop < strt) : (nowrap strt stop).toNat = (strt - stop - 1).toNat := by
  have hwide : ∀ x : BitVec w, (x.setWidth (w + 1)).toNat = x.toNat := fun x => by
    rw [BitVec.toNat_setWidth, Nat.mod_eq_of_lt (x.isLt.trans (Nat.pow_lt_pow_right Nat.one_lt_two (Nat.lt_succ_self w)))]
  have hlt : stop.setWidth (w + 1) < strt.setWidth (w + 1) := by
    rw [BitVec.lt_def, hwide, hwide]
    exact h
  unfold nowrap
  rw [toNat_sub_sub_of_lt hlt, toNat_sub_sub_of_lt h, hwide, hwide]

/-- The constant is zero in the bits that are taken of it. -/
theorem ramMaxLocation_eq (hw : w ≤ 31) : ramMaxLocation w = 0 := by
  have hlt : 2 ^ w < 2 ^ 32 := Nat.pow_lt_pow_right Nat.one_lt_two (by omega)
  apply BitVec.eq_of_toNat_eq
  unfold ramMaxLocation
  rw [BitVec.toNat_setWidth, BitVec.toNat_setWidth, BitVec.toNat_ofNat, Nat.mod_eq_of_lt hlt, Nat.mod_self]
  rfl

/-- **A gap over the end of the RAM is taken for a RAM longer.** -/
theorem toNat_wrap (hw : w ≤ 31) (h : strt ≤ stop) : (wrap strt stop).toNat = (strt - stop - 1).toNat + 2 ^ w := by
  have hle : strt.toNat ≤ stop.toNat := h
  obtain ⟨c, hc⟩ : ∃ c, 2 ^ 32 = 2 ^ (w + 1) * (c + 1) := by
    obtain ⟨c, hc⟩ := Nat.exists_eq_succ_of_ne_zero (Nat.two_pow_pos (31 - w)).ne'
    have hexp : 32 = w + 1 + (31 - w) := by omega
    refine ⟨c, ?_⟩
    calc 2 ^ 32 = 2 ^ (w + 1 + (31 - w)) := by rw [← hexp]
      _ = 2 ^ (w + 1) * (c + 1) := by rw [pow_add, hc]
  have hbig : 2 ^ (w + 1) ≤ 2 ^ 32 := by
    rw [hc]
    exact Nat.le_mul_of_pos_right _ (Nat.succ_pos c)
  have hwide : ∀ x : BitVec w, (x.setWidth 32).toNat = x.toNat := fun x => by
    rw [BitVec.toNat_setWidth, Nat.mod_eq_of_lt (by have := x.isLt; omega)]
  have hneg : ramMaxLocation w - 1 - stop.setWidth 32 + strt.setWidth 32 = ~~~(stop.setWidth 32 - strt.setWidth 32) := by
    rw [ramMaxLocation_eq hw, BitVec.not_eq_neg_add, neg_sub]
    change (0 : BitVec 32) - 1 - _ + _ = _ - _ - 1
    ring
  have hwideLe : strt.setWidth 32 ≤ stop.setWidth 32 := by
    rw [BitVec.le_def, hwide, hwide]
    exact h
  unfold wrap
  rw [hneg, BitVec.toNat_setWidth, BitVec.toNat_not, BitVec.toNat_sub_of_le hwideLe, hwide, hwide, toNat_sub_sub_of_le h]
  have hsplit : 2 ^ 32 - 1 - (stop.toNat - strt.toNat) = (2 ^ (w + 1) - 1 - (stop.toNat - strt.toNat)) + 2 ^ (w + 1) * c := by
    rw [hc, mul_add, mul_one]
    omega
  rw [hsplit, Nat.add_mul_mod_self_left, Nat.mod_eq_of_lt (by omega)]
  omega

end Alc

end LibSystemCTLM.Rtl
