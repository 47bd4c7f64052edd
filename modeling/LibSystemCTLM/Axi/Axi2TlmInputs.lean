import LibSystemCTLM.Axi.Axi2TlmChannels
import Mathlib.Data.List.TakeWhile

/-!
# What an input does to the lists and the payloads of `axi2tlm_bridge`

`wrDataList` after an address and after a beat, and what may be issued after each step (`Live`): only what
an address or a beat has just put into the list of its direction.

A beat goes to the same place of a payload in every run. So two runs that have given the same beats to a
transaction have filled the payloads alike (`Alike`), and after the last beat both write the same
(`Agree`), whatever the memory held under them.
-/

namespace LibSystemCTLM.Axi.Channel

open Foundation

variable {proto : Protocol} {dir : Direction} {s s' : Channel} {t : Transaction} {wid : BitVec 32} {l : List (Transaction × ℕ)}

/-! ### What becomes of `wrDataList` -/

/-- `wrDataList` after an address. -/
def afterAddress (proto : Protocol) (dir : Direction) (tr : Transaction) (l : List (Transaction × ℕ)) : List (Transaction × ℕ) :=
  match dir with
  | .read => l
  | .write => if (!tr.hasData proto && l.isEmpty) = true then l else l ++ [(tr, 1)]

/-- `wrDataList` after a beat. -/
def afterBeat (proto : Protocol) (wid : BitVec 32) (l : List (Transaction × ℕ)) : List (Transaction × ℕ) :=
  match l.find? (takesData proto wid) with
  | none => l
  | some (wt, beat) =>
    if wt.burstLen < beat + 1 then
      let rest := l.eraseP (takesData proto wid)
      if proto.isAce = true then rest.dropWhile fun e => !e.1.hasData proto else rest
    else l.map fun e => if e.1 = wt then (wt, beat + 1) else e

@[simp] theorem enqueue_dataList (tr : Transaction) : (s.enqueue tr).dataList = s.dataList := rfl

@[simp] theorem enqueue_next (tr : Transaction) : (s.enqueue tr).next = s.next := rfl

@[simp] theorem pick_dataList (k : ℕ) (id : BitVec 32) : (s.pick k id).dataList = s.dataList := by
  unfold pick
  split <;> rfl

@[simp] theorem pick_next (k : ℕ) (id : BitVec 32) : (s.pick k id).next = s.next := by
  unfold pick
  split <;> rfl

/-- A transaction that can be issued, now or later: it is in the list or at a thread. -/
def Live (s : Channel) (t : Transaction) : Prop := t ∈ s.list ∨ ∃ th ∈ s.threads, th.pc = .waiting t

theorem live_enqueue {tr : Transaction} (h : (s.enqueue tr).Live t) : s.Live t ∨ t = tr := by
  rcases h with hl | ⟨th, hth, hpc⟩
  · rcases List.mem_append.1 hl with hl | hl
    · exact .inl (.inl hl)
    · exact .inr (List.mem_singleton.1 hl)
  · refine .inl (.inr ⟨th, ?_, hpc⟩)
    simp only [enqueue] at hth
    split at hth
    · exact hth
    · rcases List.mem_append.1 hth with hth | hth
      · exact hth
      · rw [List.mem_singleton.1 hth] at hpc
        cases hpc

theorem live_set {th : Thread} {k : ℕ} (hnew : ∀ u, th.pc = .waiting u → u ∈ s.list) {l : List Transaction} (hl : ∀ u ∈ l, u ∈ s.list)
    (h : t ∈ l ∨ ∃ th' ∈ s.threads.set k th, th'.pc = .waiting t) : s.Live t := by
  rcases h with h | ⟨th', hth', hpc⟩
  · exact .inl (hl t h)
  · rcases List.mem_or_eq_of_mem_set hth' with hmem | rfl
    · exact .inr ⟨th', hmem, hpc⟩
    · exact .inl (hnew t hpc)

theorem live_pick {k : ℕ} {id : BitVec 32} (h : (s.pick k id).Live t) : s.Live t := by
  unfold pick at h
  split at h
  case h_1 tr htr =>
    refine live_set (fun u hu => ?_) (fun u hu => hu) h
    cases hu
    exact List.mem_of_find?_eq_some htr
  case h_2 =>
    rcases h with h | ⟨th, hth, hpc⟩
    · exact .inl h
    · exact .inr ⟨th, List.mem_of_mem_eraseIdx hth, hpc⟩

/-- The loop over the transactions without data takes them out in order. -/
theorem drain_spec (proto : Protocol) (l : List (Transaction × ℕ)) (s : Channel) :
    (drain proto l s).dataList = l.dropWhile (fun e => !e.1.hasData proto) ∧ (drain proto l s).next = s.next ∧
      ∀ t, (drain proto l s).Live t → s.Live t ∨ t ∈ (l.takeWhile fun e => !e.1.hasData proto).map Prod.fst := by
  induction l generalizing s with
  | nil => exact ⟨rfl, rfl, fun t ht => .inl ht⟩
  | cons e l ih =>
    obtain ⟨tr, beat⟩ := e
    by_cases hd : tr.hasData proto = true
    · rw [drain, if_pos hd, List.dropWhile_cons_of_neg (by simp [hd])]
      exact ⟨rfl, rfl, fun t ht => .inl ht⟩
    · obtain ⟨hl, hn, hlive⟩ := ih (s.enqueue tr)
      rw [drain, if_neg hd, List.dropWhile_cons_of_pos (by simp [hd]), List.takeWhile_cons_of_pos (by simp [hd])]
      refine ⟨hl, hn, fun t ht => ?_⟩
      rcases hlive t ht with h | h
      · rcases live_enqueue h with h | rfl
        · exact .inl h
        · exact .inr List.mem_cons_self
      · exact .inr (List.mem_cons_of_mem _ h)

/-- What leaves `wrDataList` with a beat. -/
def leaving (proto : Protocol) (wid : BitVec 32) (l : List (Transaction × ℕ)) : List Transaction :=
  match l.find? (takesData proto wid) with
  | none => []
  | some (wt, beat) =>
    if wt.burstLen < beat + 1 then
      let rest := l.eraseP (takesData proto wid)
      wt :: if proto.isAce = true then (rest.takeWhile fun e => !e.1.hasData proto).map Prod.fst else []
    else []

theorem leaving_perm (proto : Protocol) (wid : BitVec 32) (l : List (Transaction × ℕ)) :
    (leaving proto wid l ++ (afterBeat proto wid l).map Prod.fst).Perm (l.map Prod.fst) := by
  unfold leaving afterBeat
  split
  · exact .refl _
  · rename_i wt beat hfind
    split
    · -- the transaction of the beat, and what has no data behind it
      obtain ⟨htakes, pre, post, hl, hpre⟩ := List.find?_eq_some_iff_append.1 hfind
      have herase : l.eraseP (takesData proto wid) = pre ++ post := by
        rw [hl, List.eraseP_append_right _ (fun b hb => by simpa using hpre b hb), List.eraseP_cons_of_pos htakes]
      have hperm : (wt :: (l.eraseP (takesData proto wid)).map Prod.fst).Perm (l.map Prod.fst) := by
        rw [herase, hl, List.map_append, List.map_append, List.map_cons]
        exact List.perm_middle.symm
      refine .trans (.of_eq ?_) hperm
      simp only [List.cons_append]
      split
      · rw [← List.map_append, List.takeWhile_append_dropWhile]
      · rw [List.nil_append]
    · refine .of_eq ?_
      rw [List.nil_append, List.map_map]
      refine List.map_congr_left fun e _ => ?_
      simp only [Function.comp_apply]
      split
      · rename_i hwt
        exact hwt.symm
      · rfl

/-- What leaves has its last beat, or needs none. -/
theorem of_mem_leaving (h : t ∈ leaving proto wid l) :
    (∃ beat, l.find? (takesData proto wid) = some (t, beat) ∧ t.burstLen < beat + 1) ∨ t.hasData proto = false := by
  unfold leaving at h
  split at h
  · cases h
  · rename_i wt beat hfind
    split at h
    · rename_i hdone
      rcases List.mem_cons.1 h with rfl | h
      · exact .inl ⟨beat, hfind, hdone⟩
      · split at h
        · obtain ⟨e, he, rfl⟩ := List.mem_map.1 h
          exact .inr (by simpa using List.mem_takeWhile_imp he)
        · cases h
    · cases h

/-- What stays is as it was, but for one more beat. -/
theorem of_mem_afterBeat {e : Transaction × ℕ} (h : e ∈ afterBeat proto wid l) :
    (e ∈ l ∧ ∀ wt beat, l.find? (takesData proto wid) = some (wt, beat) → e.1 = wt → wt ∈ leaving proto wid l) ∨
      ∃ wt beat, l.find? (takesData proto wid) = some (wt, beat) ∧ e = (wt, beat + 1) ∧ beat + 1 ≤ wt.burstLen := by
  unfold afterBeat at h
  unfold leaving
  cases hfind : l.find? (takesData proto wid) with
  | none =>
    rw [hfind] at h
    exact .inl ⟨h, fun _ => nofun⟩
  | some e' =>
    obtain ⟨wt, beat⟩ := e'
    rw [hfind] at h
    simp only at h ⊢
    split at h
    · rename_i hdone
      refine .inl ⟨?_, ?_⟩
      · split at h
        · exact List.mem_of_mem_eraseP ((List.dropWhile_sublist _).subset h)
        · exact List.mem_of_mem_eraseP h
      · rintro wt' beat' ⟨⟩ -
        rw [if_pos hdone]
        exact List.mem_cons_self
    · rename_i hmore
      obtain ⟨e', he', rfl⟩ := List.mem_map.1 h
      split
      · exact .inr ⟨wt, beat, rfl, rfl, by omega⟩
      · rename_i hne
        refine .inl ⟨he', ?_⟩
        rintro wt' beat' ⟨⟩ heq
        exact absurd heq hne

/-! ### The steps -/

/-- An address takes the next serial. A transaction without data may be live at once. -/
theorem addressPhase_spec {p : AddressPhase} (h : s.addressPhase proto dir p = some s') :
    s'.next = s.next + 1 ∧ s'.dataList = afterAddress proto dir (.ofPhase proto dir s.next p) s.dataList ∧
      ∀ t, s'.Live t → s.Live t ∨ t = .ofPhase proto dir s.next p ∧ s'.dataList = s.dataList ∧
        (dir = .write → t.hasData proto = false) := by
  simp only [addressPhase] at h
  split at h
  · cases h
  · cases dir with
    | read =>
      obtain rfl := Option.some.inj h
      exact ⟨rfl, rfl, fun t ht => (live_enqueue ht).imp (fun h => h) fun h => ⟨h, rfl, nofun⟩⟩
    | write =>
      simp only at h
      simp only [afterAddress]
      split at h
      · rename_i hnodata
        obtain rfl := Option.some.inj h
        have hno : (Transaction.ofPhase proto .write s.next p).hasData proto = false := by
          simp only [Bool.and_eq_true, Bool.not_eq_true'] at hnodata
          exact hnodata.1
        exact ⟨rfl, (if_pos hnodata).symm, fun t ht => (live_enqueue ht).imp (fun h => h) fun h => ⟨h, rfl, fun _ => h ▸ hno⟩⟩
      · rename_i hdata
        obtain rfl := Option.some.inj h
        exact ⟨rfl, (if_neg hdata).symm, fun t ht => .inl ht⟩

/-- What becomes live with a beat is what leaves `wrDataList`. -/
theorem dataPhase_spec (h : s.dataPhase proto wid = some s') :
    s'.next = s.next ∧ s'.dataList = afterBeat proto wid s.dataList ∧ ∀ t, s'.Live t → s.Live t ∨ t ∈ leaving proto wid s.dataList := by
  unfold dataPhase at h
  unfold afterBeat leaving
  cases hfind : s.dataList.find? (takesData proto wid) with
  | none =>
    rw [hfind] at h
    cases h
  | some e =>
    obtain ⟨wt, beat⟩ := e
    simp only [hfind] at h ⊢
    split at h
    · cases h
    · split at h
      · rename_i hdone
        rw [if_pos hdone, if_pos hdone]
        cases h
        by_cases hace : proto.isAce = true
        · simp only [hace, if_true]
          obtain ⟨hl, hn, hlive⟩ := drain_spec proto (s.dataList.eraseP (takesData proto wid))
            ({ s with dataList := s.dataList.eraseP (takesData proto wid) }.enqueue wt)
          refine ⟨hn, hl, fun t ht => ?_⟩
          rcases hlive t ht with h | h
          · rcases live_enqueue h with h | rfl
            · exact .inl h
            · exact .inr List.mem_cons_self
          · exact .inr (List.mem_cons_of_mem _ h)
        · simp only [hace, if_false, Bool.false_eq_true]
          refine ⟨rfl, rfl, fun t ht => ?_⟩
          rcases live_enqueue ht with h | rfl
          · exact .inl h
          · exact .inr List.mem_cons_self
      · rename_i hdone
        rw [if_neg hdone]
        cases h
        exact ⟨rfl, rfl, fun t ht => .inl ht⟩

/-- The threads and the responses take no data and make nothing live. -/
theorem step_frame {a : Action} (ha : ∀ p, a ≠ .address p) (hd : ∀ wid, a ≠ .data wid) (h : s.step proto dir a = some s') :
    s'.next = s.next ∧ s'.dataList = s.dataList ∧ ∀ t, s'.Live t → s.Live t := by
  cases a with
  | address p => exact absurd rfl (ha p)
  | data wid => exact absurd rfl (hd wid)
  | start k =>
    simp only [step] at h
    split at h
    · cases h
      exact ⟨pick_next k _, pick_dataList k _, fun t ht => live_pick ht⟩
    · cases h
  | issue k =>
    simp only [step] at h
    split at h
    · split at h
      · cases h
      · cases h
        exact ⟨rfl, rfl, fun t ht => live_set (by rintro u ⟨⟩) (fun u hu => hu) ht⟩
    · cases h
  | ret k =>
    simp only [step] at h
    split at h
    · split at h
      · cases h
        refine ⟨pick_next k _, pick_dataList k _, fun t ht => ?_⟩
        rcases live_pick ht with h | h
        · exact .inl (List.mem_of_mem_erase h)
        · exact .inr h
      · cases h
        exact ⟨rfl, rfl, fun t ht => live_set (by rintro u ⟨⟩) (fun u hu => List.mem_of_mem_erase hu) ht⟩
    · cases h
  | written k =>
    simp only [step] at h
    split at h
    · split at h
      · cases h
        refine ⟨pick_next k _, pick_dataList k _, fun t ht => ?_⟩
        rcases live_pick ht with h | h
        · exact .inl h
        · exact .inr h
      · cases h
    · cases h
  | respond =>
    simp only [step] at h
    split at h
    · cases h
      exact ⟨rfl, rfl, fun t ht => ht⟩
    · cases h
  | answer =>
    simp only [step] at h
    split at h
    · cases h
      exact ⟨rfl, rfl, fun t ht => ht⟩
    · cases h

end LibSystemCTLM.Axi.Channel

namespace LibSystemCTLM.Axi2Tlm

open Foundation Tlm

variable {cfg : Config}

namespace Transaction

variable {tr tr' : Transaction} {p : AddressPhase cfg}

/-! ### What a beat does not touch -/

/-- All but the bytes, the byte enables and the place in the payload. -/
def shape (tr : Transaction) : Transaction := { tr with gp := { tr.gp with byteEnable := [], data := fun _ => 0 }, dataIdx := 0 }

theorem shape_fillLane (tr : Transaction) (beat : Beat Byte) (i : ℕ) : (tr.fillLane beat i).shape = tr.shape := by
  unfold fillLane
  split
  · split <;> rfl
  · rfl

theorem shape_fillLanes (beat : Beat Byte) (lanes : List ℕ) (tr : Transaction) :
    (lanes.foldl (fun tr i => tr.fillLane beat i) tr).shape = tr.shape := by
  induction lanes generalizing tr with
  | nil => rfl
  | cons i lanes ih => exact (ih _).trans (shape_fillLane tr beat i)

theorem shape_tryDropBE (tr : Transaction) : tr.tryDropBE.shape = tr.shape := by
  unfold tryDropBE
  split <;> rfl

theorem shape_takeBeat (tr : Transaction) (beat : Beat Byte) : (tr.takeBeat cfg beat).shape = tr.shape.incBeat := by
  have hfill : (tr.fillData cfg beat).incBeat.shape = tr.shape.incBeat := congrArg incBeat (shape_fillLanes beat _ tr)
  unfold takeBeat
  simp only
  split
  · exact (shape_tryDropBE _).trans hfill
  · exact hfill

theorem firstLane_congr (h : tr.shape = tr'.shape) : tr.firstLane cfg = tr'.firstLane cfg := by
  have hbeat : tr.beat = tr'.beat := congrArg (fun t => t.beat) h
  have haddr : tr.gp.address = tr'.gp.address := congrArg (fun t => t.gp.address) h
  simp only [firstLane, hbeat, haddr]

/-! ### Payloads that are filled alike -/

/-- The same beats have gone into both, whatever was in the memory before. -/
structure Alike (tr tr' : Transaction) : Prop where
  shape : tr.shape = tr'.shape
  idx : tr.dataIdx = tr'.dataIdx
  length : tr.gp.byteEnable.length = tr.gp.dataLength
  length' : tr'.gp.byteEnable.length = tr'.gp.dataLength
  enables : ∀ k < tr.dataIdx, tr.gp.byteEnable[k]? = tr'.gp.byteEnable[k]?
  bytes : ∀ k < tr.dataIdx, tr.gp.byteEnable[k]? = some byteEnabled → tr.gp.data k = tr'.gp.data k

theorem Alike.fillLane (h : tr.Alike tr') (beat : Beat Byte) (i : ℕ) : (tr.fillLane beat i).Alike (tr'.fillLane beat i) := by
  have hlen : tr.gp.dataLength = tr'.gp.dataLength := congrArg (fun t => t.gp.dataLength) h.shape
  have hshape : (tr.fillLane beat i).shape = (tr'.fillLane beat i).shape := by rw [shape_fillLane, shape_fillLane, h.shape]
  have hne : (byteDisabled : Byte) ≠ byteEnabled := by decide
  by_cases hlt : tr.dataIdx < tr.gp.dataLength
  · have hbe : tr.dataIdx < tr.gp.byteEnable.length := h.length ▸ hlt
    have hbe' : tr.dataIdx < tr'.gp.byteEnable.length := by rw [h.length', ← hlen]; exact hlt
    have hlt' : tr.dataIdx < tr'.gp.dataLength := hlen ▸ hlt
    -- the place that is written, and the places before it
    have henables (b : Byte) : ∀ k < tr.dataIdx + 1, (tr.gp.byteEnable.set tr.dataIdx b)[k]? = (tr'.gp.byteEnable.set tr.dataIdx b)[k]? := by
      intro k hk
      rcases Nat.lt_succ_iff_lt_or_eq.1 hk with hk | rfl
      · rw [List.getElem?_set_ne (by omega), List.getElem?_set_ne (by omega)]
        exact h.enables k hk
      · rw [List.getElem?_set_self hbe, List.getElem?_set_self hbe']
    by_cases hs : beat.strb i = true
    · refine ⟨hshape, ?_, ?_, ?_, ?_, ?_⟩ <;>
        simp only [Transaction.fillLane, if_pos hlt, if_pos hlt', if_pos hs, ← h.idx, List.length_set, h.length, h.length']
      · exact henables byteEnabled
      · intro k hk hen
        rcases Nat.lt_succ_iff_lt_or_eq.1 hk with hk | rfl
        · rw [Function.update_of_ne (by omega), Function.update_of_ne (by omega)]
          rw [List.getElem?_set_ne (by omega)] at hen
          exact h.bytes k hk hen
        · rw [Function.update_self, Function.update_self]
    · refine ⟨hshape, ?_, ?_, ?_, ?_, ?_⟩ <;>
        simp only [Transaction.fillLane, if_pos hlt, if_pos hlt', if_neg hs, ← h.idx, List.length_set, h.length, h.length']
      · exact henables byteDisabled
      · intro k hk hen
        rcases Nat.lt_succ_iff_lt_or_eq.1 hk with hk | rfl
        · rw [List.getElem?_set_ne (by omega)] at hen
          exact h.bytes k hk hen
        · rw [List.getElem?_set_self hbe] at hen
          exact absurd (Option.some.inj hen) hne
  · have hlt' : ¬tr'.dataIdx < tr'.gp.dataLength := by rw [← h.idx, ← hlen]; exact hlt
    rw [Transaction.fillLane, Transaction.fillLane, if_neg hlt, if_neg hlt']
    exact h

theorem Alike.fillLanes (h : tr.Alike tr') (beat : Beat Byte) (lanes : List ℕ) :
    (lanes.foldl (fun tr i => tr.fillLane beat i) tr).Alike (lanes.foldl (fun tr i => tr.fillLane beat i) tr') := by
  induction lanes generalizing tr tr' with
  | nil => exact h
  | cons i lanes ih => exact ih (h.fillLane beat i)

theorem Alike.fillData (h : tr.Alike tr') (beat : Beat Byte) : (tr.fillData cfg beat).Alike (tr'.fillData cfg beat) := by
  unfold Transaction.fillData
  rw [firstLane_congr h.shape]
  exact h.fillLanes beat _

/-- When the payload is full, both write the same. -/
theorem Alike.writes (h : tr.Alike tr') (hfull : tr.dataIdx = tr.gp.dataLength) : tr.tryDropBE.gp.writes = tr'.tryDropBE.gp.writes := by
  have hlen : tr.gp.dataLength = tr'.gp.dataLength := congrArg (fun t => t.gp.dataLength) h.shape
  have hshape : tr.tryDropBE.shape = tr'.tryDropBE.shape := by rw [shape_tryDropBE, shape_tryDropBE, h.shape]
  have hlen₁ : tr.tryDropBE.gp.dataLength = tr.gp.dataLength := congrArg (fun t => t.gp.dataLength) (shape_tryDropBE tr)
  have hlen₂ : tr'.tryDropBE.gp.dataLength = tr.gp.dataLength := (congrArg (fun t => t.gp.dataLength) (shape_tryDropBE tr')).trans hlen.symm
  have haddr (k : ℕ) : tr.tryDropBE.gp.byteAddr k = tr'.tryDropBE.gp.byteAddr k := congrArg (fun t => t.gp.byteAddr k) hshape
  unfold GenericPayload.writes
  rw [hlen₁, hlen₂]
  refine List.filterMap_congr fun k hk => ?_
  have hk' : k < tr.gp.dataLength := List.mem_range.1 hk
  rw [enabled_tryDropBE tr h.length hk', enabled_tryDropBE tr' h.length' (hlen ▸ hk'), ← h.enables k (hfull ▸ hk'), haddr,
    writes_tryDropBE_data, writes_tryDropBE_data]
  split
  · rename_i hen
    rw [h.bytes k (hfull ▸ hk') (of_decide_eq_true hen)]
  · rfl

/-! ### How far a payload is filled -/

/-- A payload of a burst with the beats before `beat` in it. -/
structure Gathers (p : AddressPhase cfg) (tr : Transaction) : Prop where
  length : tr.gp.dataLength = p.length
  burstLen : tr.burstLen = p.axlen + 1
  skip : tr.gp.address.toNat % cfg.dataBusBytes = p.skip
  idx : tr.dataIdx = min p.length (p.place (tr.beat - 1))
  pos : 1 ≤ tr.beat

theorem dataIdx_fillLanes (beat : Beat Byte) (lanes : List ℕ) (hle : tr.dataIdx ≤ tr.gp.dataLength) :
    (lanes.foldl (fun tr i => tr.fillLane beat i) tr).dataIdx = min tr.gp.dataLength (tr.dataIdx + lanes.length) := by
  induction lanes generalizing tr with
  | nil =>
    rw [List.length_nil, Nat.add_zero, min_eq_right hle]
    rfl
  | cons i lanes ih =>
    have hlen : (tr.fillLane beat i).gp.dataLength = tr.gp.dataLength := congrArg (fun t => t.gp.dataLength) (shape_fillLane tr beat i)
    have hidx : (tr.fillLane beat i).dataIdx = min tr.gp.dataLength (tr.dataIdx + 1) := by
      unfold fillLane
      split
      · split <;> (simp only; omega)
      · omega
    rw [List.foldl_cons, ih (by omega), hlen, hidx, List.length_cons]
    omega

theorem Gathers.fillData (h : tr.Gathers p) (beat : Beat Byte) : (tr.fillData cfg beat).incBeat.Gathers p := by
  have hshape : (tr.fillData cfg beat).shape = tr.shape := shape_fillLanes beat _ tr
  have hlen : (tr.fillData cfg beat).gp.dataLength = tr.gp.dataLength := congrArg (fun t => t.gp.dataLength) hshape
  have hbeat : (tr.fillData cfg beat).beat = tr.beat := congrArg (fun t => t.beat) hshape
  have hpos := h.pos
  have hplace : p.place (tr.beat - 1) + (cfg.dataBusBytes - p.first (tr.beat - 1)) = p.place tr.beat := by
    rw [← p.place_succ, Nat.sub_add_cancel hpos]
  refine ⟨hlen.trans h.length, (congrArg (fun t => t.burstLen) hshape).trans h.burstLen, ?_, ?_, Nat.le_add_left 1 _⟩
  · exact (congrArg (fun t => t.gp.address.toNat % cfg.dataBusBytes) hshape).trans h.skip
  · change (tr.fillData cfg beat).dataIdx = min p.length (p.place ((tr.fillData cfg beat).beat + 1 - 1))
    have hidx : (tr.fillData cfg beat).dataIdx = min p.length (tr.dataIdx + (cfg.dataBusBytes - p.first (tr.beat - 1))) := by
      rw [Transaction.fillData, dataIdx_fillLanes beat _ (by rw [h.idx, h.length]; exact min_le_left _ _), List.length_range',
        firstLane_eq h.skip (Nat.sub_add_cancel hpos).symm, h.length]
    rw [hidx, hbeat, Nat.add_sub_cancel, h.idx]
    omega

/-- After the last beat the payload is full. -/
theorem Gathers.full (h : tr.Gathers p) (hdone : tr.burstLen < tr.beat) : tr.dataIdx = tr.gp.dataLength := by
  have hle : p.axlen + 1 ≤ tr.beat - 1 := by
    have := h.burstLen
    omega
  rw [h.idx, h.length, min_eq_left (p.length_le_place.trans (p.place_mono hle))]

/-! ### Transactions of two runs -/

/-- What two runs make of the same signals and beats: payloads that are filled alike, and in the end
write the same. -/
structure Agree (cfg : Config) (tr tr' : Transaction) : Prop where
  shape : tr.shape = tr'.shape
  alike : tr.gp.command = .write → tr.beat ≤ tr.burstLen → tr.Alike tr' ∧ ∃ p : AddressPhase cfg, tr.Gathers p
  writes : tr.gp.command = .write → tr.burstLen < tr.beat → tr.gp.writes = tr'.gp.writes

theorem agree_ofPhase (cmd : Command) (withBe : Bool) (hbe : cmd = .write → withBe = true) (buf buf' : Buffers) (p : AddressPhase cfg) :
    Agree cfg (ofPhase cmd withBe buf p) (ofPhase cmd withBe buf' p) := by
  refine ⟨rfl, fun hcmd _ => ?_, fun _ hlt => absurd hlt (Nat.not_lt.2 (Nat.le_add_left 1 _))⟩
  obtain rfl := hbe hcmd
  refine ⟨⟨rfl, rfl, ?_, ?_, fun k hk => absurd hk (Nat.not_lt_zero k), fun k hk => absurd hk (Nat.not_lt_zero k)⟩, p, ?_⟩
  · simp only [ofPhase, if_true, List.length_map, List.length_range]
  · simp only [ofPhase, if_true, List.length_map, List.length_range]
  · exact ⟨p.dataLength_ofPhase cmd true buf, rfl, p.skip_ofPhase cmd true buf, by
      rw [show (ofPhase cmd true buf p).beat - 1 = 0 from rfl, p.place_zero, Nat.min_zero]; rfl, le_rfl⟩

theorem Agree.takeBeat (h : Agree cfg tr tr') (hle : tr.beat ≤ tr.burstLen) (beat : Beat Byte) :
    Agree cfg (tr.takeBeat cfg beat) (tr'.takeBeat cfg beat) := by
  have hshape : (tr.takeBeat cfg beat).shape = (tr'.takeBeat cfg beat).shape := by rw [shape_takeBeat, shape_takeBeat, h.shape]
  have hcmd : (tr.takeBeat cfg beat).gp.command = tr.gp.command := congrArg (fun t => t.gp.command) (shape_takeBeat tr beat)
  have hbeat : (tr.takeBeat cfg beat).beat = tr.beat + 1 := congrArg (fun t => t.beat) (shape_takeBeat tr beat)
  have hburst : (tr.takeBeat cfg beat).burstLen = tr.burstLen := congrArg (fun t => t.burstLen) (shape_takeBeat tr beat)
  have hfill : (tr.fillData cfg beat).shape = tr.shape := shape_fillLanes beat _ tr
  have hfill' : (tr'.fillData cfg beat).shape = tr'.shape := shape_fillLanes beat _ tr'
  have hlast : (tr.fillData cfg beat).incBeat.burstLen < (tr.fillData cfg beat).incBeat.beat ↔ tr.burstLen < tr.beat + 1 := by
    rw [show (tr.fillData cfg beat).incBeat.burstLen = tr.burstLen from congrArg (fun t => t.burstLen) hfill,
      show (tr.fillData cfg beat).incBeat.beat = tr.beat + 1 from congrArg (fun t => t.beat + 1) hfill]
  have hlast' : (tr'.fillData cfg beat).incBeat.burstLen < (tr'.fillData cfg beat).incBeat.beat ↔ tr.burstLen < tr.beat + 1 := by
    rw [show (tr'.fillData cfg beat).incBeat.burstLen = tr.burstLen from congrArg (fun t => t.burstLen) (hfill'.trans h.shape.symm),
      show (tr'.fillData cfg beat).incBeat.beat = tr.beat + 1 from congrArg (fun t => t.beat + 1) (hfill'.trans h.shape.symm)]
  have hinc {t t' : Transaction} (ha : t.Alike t') : t.incBeat.Alike t'.incBeat :=
    ⟨congrArg incBeat ha.shape, ha.idx, ha.length, ha.length', ha.enables, ha.bytes⟩
  refine ⟨hshape, fun hw hmore => ?_, fun hw hdone => ?_⟩
  · rw [hbeat, hburst] at hmore
    obtain ⟨ha, p, hp⟩ := h.alike (hcmd.symm.trans hw) hle
    simp only [Transaction.takeBeat, if_neg (fun hc => absurd (hlast.1 hc) (Nat.not_lt.2 hmore)),
      if_neg (fun hc => absurd (hlast'.1 hc) (Nat.not_lt.2 hmore))]
    exact ⟨hinc (ha.fillData beat), p, hp.fillData beat⟩
  · rw [hbeat, hburst] at hdone
    obtain ⟨ha, p, hp⟩ := h.alike (hcmd.symm.trans hw) hle
    simp only [Transaction.takeBeat, if_pos (hlast.2 hdone), if_pos (hlast'.2 hdone)]
    exact (hinc (ha.fillData beat)).writes ((hp.fillData beat).full (hlast.2 hdone))

end Transaction

end LibSystemCTLM.Axi2Tlm
