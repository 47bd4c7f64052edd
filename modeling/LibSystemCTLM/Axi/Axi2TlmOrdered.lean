import LibSystemCTLM.Axi.Axi2TlmOrder
import LibSystemCTLM.Foundation.Splits

/-!
# The order `axi2tlm_bridge` keeps

The invariant of a channel: the lists a transaction goes through partition what was accepted, each
ID has one thread while it is in the list, and that thread works at the first transaction of its ID.
Each step keeps it (`Inv.step`), so it holds along every run, and with it `Ordered`
(`keepsOrder_of_reach`). A copy-back passes a barrier (`exists_issued_past_barrier`).
-/

namespace LibSystemCTLM.Axi.Channel

open Foundation Ace

variable {proto : Protocol} {dir : Direction} {s s' : Channel} {id : BitVec 32} {t u tr : Transaction}

/-! ### Lists by ID -/

@[simp] theorem ofId_append (id : BitVec 32) (l l' : List Transaction) : ofId id (l ++ l') = ofId id l ++ ofId id l' :=
  List.filter_append ..

@[simp] theorem ofId_nil (id : BitVec 32) : ofId id [] = [] := rfl

theorem ofId_singleton (id : BitVec 32) (t : Transaction) : ofId id [t] = if t.transactionId = id then [t] else [] := by
  by_cases h : t.transactionId = id <;> simp [ofId, h]

theorem mem_ofId {l : List Transaction} : t ∈ ofId id l ↔ t ∈ l ∧ t.transactionId = id := by
  simp [ofId]

theorem ofId_eq_nil {l : List Transaction} (h : inList l id = false) : ofId id l = [] := by
  simpa [ofId, inList, List.filter_eq_nil_iff] using h

/-- `GetFirstWithID` finds the first of the ID. -/
theorem getFirstWithID_eq_head? (l : List Transaction) (id : BitVec 32) : getFirstWithID l id = (ofId id l).head? := by
  simp [getFirstWithID, ofId, List.head?_filter]

theorem inList_iff {l : List Transaction} : inList l id = true ↔ ∃ t ∈ l, t.transactionId = id := by
  simp [inList]

theorem inList_iff_ofId {l : List Transaction} : inList l id = true ↔ ofId id l ≠ [] := by
  simp [inList, ofId]

theorem getFirstWithID_of_inList {l : List Transaction} (h : inList l id = true) : ∃ tr, getFirstWithID l id = some tr := by
  rw [← Option.isSome_iff_exists, getFirstWithID, List.find?_isSome]
  simpa [inList] using h

theorem getFirstWithID_eq_some {l : List Transaction} (h : getFirstWithID l id = some tr) : tr ∈ l ∧ tr.transactionId = id :=
  ⟨List.mem_of_find?_eq_some h, by simpa using List.find?_some h⟩

/-- What is appended does not come first while there is one of the ID. -/
theorem getFirstWithID_append {l : List Transaction} (h : getFirstWithID l id = some t) (l' : List Transaction) :
    getFirstWithID (l ++ l') id = some t := by
  rw [getFirstWithID, List.find?_append]
  simp [show l.find? _ = some t from h]

/-! ### The invariant -/

/-- What a thread calls downstream, if it does. -/
def callOf : Pc → Option Transaction
  | .calling tr => some tr
  | _ => none

/-- The calls downstream of an ID. -/
def calls (id : BitVec 32) (threads : List Thread) : List Transaction :=
  threads.filterMap fun th => if th.transactionID = id then callOf th.pc else none

/-- A thread works at the first transaction of its ID. -/
def PcOk (list : List Transaction) (id : BitVec 32) : Pc → Prop
  | .start => True
  | .waiting tr | .calling tr => getFirstWithID list id = some tr
  | .writing _ => False

/-- The transactions come in the order they are accepted in. -/
def InOrder (proto : Protocol) (dir : Direction) : Prop := proto ≠ .axi3 ∨ dir = .read

/-- Where the transactions of a channel are. -/
structure Inv (proto : Protocol) (dir : Direction) (s : Channel) : Prop where
  /-- Every transaction is accepted once. -/
  fresh : ∀ t ∈ s.accepted, t.serial < s.next
  nodup : s.accepted.Nodup
  /-- Accepted transactions are queued, or still wait for data. -/
  perm : s.accepted.Perm (s.queued ++ s.dataList.map Prod.fst)
  byId : ∀ id, ofId id s.accepted = ofId id s.queued ++ ofId id (s.dataList.map Prod.fst)
  inOrder : InOrder proto dir → s.accepted = s.queued ++ s.dataList.map Prod.fst
  /-- Queued ones are in the list until they have completed. -/
  list : s.list = s.queued.filter fun t => decide (t ∉ s.completed)
  queuedById : ∀ id, ofId id s.queued = ofId id s.completed ++ ofId id s.list
  /-- Each ID in the list has one thread. -/
  threadsNodup : (s.threads.map Thread.transactionID).Nodup
  threadOf : ∀ id, id ∈ s.threads.map Thread.transactionID ↔ inList s.list id = true
  pcOk : ∀ th ∈ s.threads, PcOk s.list th.transactionID th.pc
  /-- What is issued has completed or is called. -/
  issuedById : ∀ id, ofId id s.issued = ofId id s.completed ++ calls id s.threads
  /-- What has completed is answered, or on its way to be. -/
  completed : s.completed = s.answered ++ (s.responding.toList ++ s.fifo)
  /-- What came before an issued barrier has completed. -/
  barriers : proto.isAce = true → ∀ b ∈ s.issued, b.barrier = true → ∀ u, Before s.queued u b → u ∈ s.completed
  /-- The counters. -/
  count : s.numTransactions = s.dataList.length + s.list.length + (s.responding.toList ++ s.fifo).length
  room : proto ≠ .ace → s.numBarriers = 0 ∧ s.numTransactions ≤ maxTransactions

theorem inv_init : Inv proto dir {} := by
  constructor <;> simp [calls, inList, maxTransactions]

/-! ### What the invariant says -/

namespace Inv

theorem queued_nodup (h : Inv proto dir s) : (s.queued ++ s.dataList.map Prod.fst).Nodup := h.perm.nodup_iff.1 h.nodup

theorem list_nodup (h : Inv proto dir s) : s.list.Nodup :=
  h.list ▸ (List.nodup_append.1 h.queued_nodup).1.filter _

theorem mem_list_iff (h : Inv proto dir s) : t ∈ s.list ↔ t ∈ s.queued ∧ t ∉ s.completed := by
  rw [h.list]
  simp

theorem queued_of_completed (h : Inv proto dir s) (ht : t ∈ s.completed) : t ∈ s.queued := by
  have hmem : t ∈ ofId t.transactionId s.queued := by
    rw [h.queuedById]
    exact List.mem_append_left _ (mem_ofId.2 ⟨ht, rfl⟩)
  exact (mem_ofId.1 hmem).1

/-- A transaction that is called stands first of its ID in the list. -/
theorem first_of_mem_calls (h : Inv proto dir s) (ht : t ∈ calls id s.threads) : getFirstWithID s.list id = some t := by
  obtain ⟨th, hth, hc⟩ := List.mem_filterMap.1 ht
  split at hc
  · rename_i hid
    have hok := h.pcOk th hth
    cases hpc : th.pc <;> simp only [hpc, callOf, Option.some.injEq, reduceCtorEq] at hc
    simp only [hpc, PcOk] at hok
    exact hid ▸ hc ▸ hok
  · cases hc

theorem queued_of_issued (h : Inv proto dir s) (ht : t ∈ s.issued) : t ∈ s.queued := by
  have hmem : t ∈ ofId t.transactionId s.issued := mem_ofId.2 ⟨ht, rfl⟩
  rw [h.issuedById] at hmem
  rcases List.mem_append.1 hmem with hmem | hmem
  · exact h.queued_of_completed (mem_ofId.1 hmem).1
  · exact (h.mem_list_iff.1 (List.mem_of_find?_eq_some (h.first_of_mem_calls hmem))).1

/-- What came before a transaction of the list and has not completed is met by a scan up to it. -/
theorem mem_takeWhile (h : Inv proto dir s) (ht : t ∈ s.list) (hu : u ∉ s.completed) (hb : Before s.queued u t) :
    u ∈ s.list.takeWhile (· ≠ t) := by
  refine Before.mem_takeWhile h.list_nodup ?_
  rw [h.list]
  exact hb.filter (decide_eq_true hu) (decide_eq_true (h.mem_list_iff.1 ht).2)

/-- The bridge's order, for a transaction that is in the list. -/
theorem before_queued (h : Inv proto dir s) (ht : t ∈ s.queued) (hb : Before (s.order proto dir) u t) : Before s.queued u t := by
  unfold order at hb
  split at hb
  · exact hb
  · rename_i hne
    have hin : InOrder proto dir := by
      cases dir
      · exact .inr rfl
      · exact .inl fun hp => hne ⟨hp, rfl⟩
    rw [h.inOrder hin] at hb
    exact hb.of_append h.queued_nodup ht

end Inv

/-! ### From the data list to the list -/

theorem calls_append (id : BitVec 32) (l l' : List Thread) : calls id (l ++ l') = calls id l ++ calls id l' :=
  List.filterMap_append ..

theorem calls_eq_nil {ths : List Thread} (h : id ∉ ths.map Thread.transactionID) : calls id ths = [] := by
  simp only [calls, List.filterMap_eq_nil_iff]
  intro th hth
  have hne : th.transactionID ≠ id := by
    rintro rfl
    exact h (List.mem_map_of_mem hth)
  exact if_neg hne

theorem PcOk.append {list : List Transaction} {pc : Pc} (h : PcOk list id pc) (l : List Transaction) : PcOk (list ++ l) id pc := by
  cases pc with
  | start => trivial
  | waiting tr => exact getFirstWithID_append h l
  | calling tr => exact getFirstWithID_append h l
  | writing tr => exact h

/-- It depends on the ID's part of the list only. -/
theorem PcOk.congr {list list' : List Transaction} {pc : Pc} (h : PcOk list id pc) (hl : ofId id list' = ofId id list) :
    PcOk list' id pc := by
  cases pc <;> simp only [PcOk, getFirstWithID_eq_head?, hl] at h ⊢ <;> exact h

/-- A transaction whose data is there is put into the list. In AXI3 it is the first of its ID, else the first. -/
theorem Inv.enqueue {pre post : List (Transaction × ℕ)} {beat : ℕ} (h : Inv proto dir s)
    (hd : s.dataList = pre ++ (tr, beat) :: post) (hid : ofId tr.transactionId (pre.map Prod.fst) = [])
    (hin : InOrder proto dir → pre = []) :
    Inv proto dir ({ s with dataList := pre ++ post }.enqueue tr) := by
  have hnodup := h.queued_nodup
  have hperm := h.perm
  rw [hd, List.map_append, List.map_cons] at hnodup hperm
  have hfresh : tr ∉ s.queued := fun hq => (List.nodup_append.1 hnodup).2.2 tr hq tr (by simp) rfl
  have hdone : tr ∉ s.completed := fun hc => hfresh (h.queued_of_completed hc)
  have hperm' : s.accepted.Perm (s.queued ++ [tr] ++ (pre ++ post).map Prod.fst) := by
    rw [List.map_append, List.append_assoc]
    exact hperm.trans (List.perm_middle.append_left _)
  have hnew : inList s.list tr.transactionId = false → tr.transactionId ∉ s.threads.map Thread.transactionID :=
    fun hl hm => by simp [(h.threadOf _).1 hm] at hl
  constructor
  case fresh => exact h.fresh
  case nodup => exact h.nodup
  case perm => exact hperm'
  case byId =>
    intro id
    simp only [h.byId, hd, Channel.enqueue, List.map_append, List.map_cons, ofId_append]
    rw [← List.singleton_append, ofId_append, ofId_singleton]
    by_cases hi : tr.transactionId = id
    · simp [← hi, hid]
    · simp [hi]
  case inOrder =>
    intro hio
    simp [Channel.enqueue, h.inOrder hio, hd, hin hio]
  case list =>
    simp only [Channel.enqueue, List.filter_append]
    rw [← h.list]
    simp [hdone]
  case queuedById => simp [Channel.enqueue, h.queuedById]
  case threadsNodup =>
    simp only [Channel.enqueue]
    split
    · exact h.threadsNodup
    · rename_i hl
      rw [List.map_append, List.nodup_append]
      refine ⟨h.threadsNodup, by simp, fun a ha b hb => ?_⟩
      obtain rfl : b = tr.transactionId := by simpa using hb
      exact fun hab => hnew (by simpa using hl) (hab ▸ ha)
  case threadOf =>
    intro id
    simp only [Channel.enqueue]
    split
    · rename_i hl
      simp only [h.threadOf, inList_iff, List.mem_append, List.mem_singleton]
      obtain ⟨v, hv, hvid⟩ := inList_iff.1 hl
      refine ⟨fun ⟨w, hw, hwid⟩ => ⟨w, .inl hw, hwid⟩, ?_⟩
      rintro ⟨w, hw | rfl, hwid⟩
      · exact ⟨w, hw, hwid⟩
      · exact ⟨v, hv, hvid.trans hwid⟩
    · simp only [List.map_append, List.mem_append, h.threadOf, inList_iff, List.map_cons, List.map_nil, List.mem_singleton]
      grind
  case pcOk =>
    intro th hth
    simp only [Channel.enqueue] at hth ⊢
    split at hth
    · exact (h.pcOk th hth).append _
    · rcases List.mem_append.1 hth with hth | hth
      · exact (h.pcOk th hth).append _
      · obtain rfl := List.mem_singleton.1 hth
        trivial
  case issuedById =>
    intro id
    simp only [Channel.enqueue]
    split
    · exact h.issuedById id
    · rw [calls_append, h.issuedById]
      simp [calls, callOf]
  case completed => exact h.completed
  case barriers =>
    intro hace b hb hbar u hu
    refine h.barriers hace b hb hbar u (hu.of_append ?_ (h.queued_of_issued hb))
    exact (List.nodup_append.1 (hperm'.nodup_iff.1 h.nodup)).1
  case count =>
    have hc := h.count
    simp only [hd, Channel.enqueue, List.length_append, List.length_cons, List.length_nil] at hc ⊢
    omega
  case room => exact h.room

/-! ### The address and the data phase -/

theorem lt_of_assertReady (h : s.assertReady proto = true) : s.numTransactions - s.numBarriers < maxTransactions := by
  simp only [assertReady, Bool.and_eq_true, decide_eq_true_eq] at h
  exact h.1

/-- An accepted transaction, as if it were to wait for data. -/
theorem Inv.accept (h : Inv proto dir s) (hready : s.assertReady proto = true) (hs : tr.serial = s.next) (beat : ℕ) {n : ℕ}
    (hn : proto ≠ .ace → n = s.numBarriers) :
    Inv proto dir { s with
      next := s.next + 1, accepted := s.accepted ++ [tr], numTransactions := s.numTransactions + 1, numBarriers := n,
      dataList := s.dataList ++ [(tr, beat)] } := by
  have hfresh : tr ∉ s.accepted := fun ht => absurd (h.fresh tr ht) (by omega)
  exact { h with
    fresh := fun t ht => by
      rcases List.mem_append.1 ht with ht | ht
      · exact (h.fresh t ht).trans (Nat.lt_succ_self _)
      · rw [List.mem_singleton.1 ht, hs]
        exact Nat.lt_succ_self _
    nodup := by
      refine List.nodup_append.2 ⟨h.nodup, List.nodup_singleton _, fun a ha b hb hab => hfresh ?_⟩
      exact List.mem_singleton.1 hb ▸ hab ▸ ha
    perm := by
      rw [List.map_append, ← List.append_assoc]
      exact h.perm.append_right _
    byId := fun id => by simp [h.byId]
    inOrder := fun hin => by simp [h.inOrder hin]
    count := by
      have hc := h.count
      simp only [List.length_append, List.length_cons, List.length_nil] at hc ⊢
      omega
    room := fun hp => by
      obtain ⟨hb, hroom⟩ := h.room hp
      have hlt := lt_of_assertReady hready
      refine ⟨by rw [hn hp, hb], ?_⟩
      show s.numTransactions + 1 ≤ maxTransactions
      omega }

theorem with_dataList {l : List (Transaction × ℕ)} (h : s.dataList = l) : { s with dataList := l } = s := by
  subst h
  rfl

/-- A transaction that is accepted and needs to wait for nothing. -/
theorem Inv.accept_enqueue (h : Inv proto dir s) (hready : s.assertReady proto = true) (hs : tr.serial = s.next) {n : ℕ}
    (hn : proto ≠ .ace → n = s.numBarriers) (hd : s.dataList = []) :
    Inv proto dir ({ s with
      next := s.next + 1, accepted := s.accepted ++ [tr], numTransactions := s.numTransactions + 1, numBarriers := n }.enqueue tr) := by
  have hq := (h.accept hready hs 1 hn).enqueue (show s.dataList ++ [(tr, 1)] = [] ++ (tr, 1) :: [] by rw [hd]) rfl fun _ => rfl
  rwa [with_dataList (s := { s with
      next := s.next + 1, accepted := s.accepted ++ [tr], numTransactions := s.numTransactions + 1, numBarriers := n })
    (show s.dataList = [] ++ [] from hd)] at hq

theorem Inv.addressPhase (h : Inv proto dir s) (hr : dir = .read → s.dataList = []) {p : AddressPhase}
    (hs : s.addressPhase proto dir p = some s') : Inv proto dir s' ∧ (dir = .read → s'.dataList = []) := by
  simp only [Channel.addressPhase] at hs
  split at hs
  · cases hs
  · rename_i hready
    have hacc : s.assertReady proto = true := by
      by_contra hc
      exact hready (by simp [hc])
    have hn : proto ≠ .ace → (if proto = .ace ∧ (Transaction.ofPhase proto dir s.next p).barrier = true then s.numBarriers + 1
        else s.numBarriers) = s.numBarriers := fun hp => if_neg fun hc => hp hc.1
    have hserial : (Transaction.ofPhase proto dir s.next p).serial = s.next := by cases dir <;> rfl
    cases dir with
    | read =>
      obtain rfl := Option.some.inj hs
      exact ⟨h.accept_enqueue hacc hserial hn (hr rfl), fun _ => hr rfl⟩
    | write =>
      refine ⟨?_, fun hd => absurd hd (by simp)⟩
      simp only at hs
      split at hs
      · rename_i hnow
        simp only [Bool.and_eq_true, List.isEmpty_iff] at hnow
        obtain rfl := Option.some.inj hs
        exact h.accept_enqueue hacc hserial hn hnow.2
      · obtain rfl := Option.some.inj hs
        exact h.accept hacc hserial 1 hn

/-- The transactions without data at the front follow at once. -/
theorem Inv.drain {l : List (Transaction × ℕ)} (h : Inv proto dir { s with dataList := l }) :
    Inv proto dir (Channel.drain proto l s) := by
  induction l generalizing s with
  | nil => exact h
  | cons e l ih =>
    obtain ⟨tr, beat⟩ := e
    unfold Channel.drain
    split
    · exact h
    · exact ih (h.enqueue (List.nil_append _).symm rfl fun _ => rfl)

/-- A beat leaves the transactions that wait for data as they are. -/
theorem Inv.beat (h : Inv proto dir s) (f : Transaction × ℕ → ℕ) :
    Inv proto dir { s with dataList := s.dataList.map fun e => (e.1, f e) } := by
  have hmap : (s.dataList.map fun e => (e.1, f e)).map Prod.fst = s.dataList.map Prod.fst := by simp
  exact { h with
    perm := hmap ▸ h.perm
    byId := hmap ▸ h.byId
    inOrder := hmap ▸ h.inOrder
    count := by simpa using h.count }

/-- The transaction that takes the data stands first of its ID, and first of all but in AXI3. -/
theorem takesData_prefix {pre : List (Transaction × ℕ)} {wid : BitVec 32} {e : Transaction × ℕ}
    (he : takesData proto wid e = true) (hpre : ∀ a ∈ pre, (!takesData proto wid a) = true) :
    ofId e.1.transactionId (pre.map Prod.fst) = [] ∧ (proto ≠ .axi3 → pre = []) := by
  by_cases hp : proto = .axi3
  · simp only [takesData, hp, decide_not, decide_true, Bool.not_true, Bool.false_or, decide_eq_true_eq] at he hpre
    refine ⟨ofId_eq_nil ?_, fun hne => absurd hp hne⟩
    simpa [inList, he] using hpre
  · have hnil : pre = [] := List.eq_nil_iff_forall_not_mem.2 fun a ha => by simpa [takesData, hp] using hpre a ha
    exact ⟨by simp [hnil], fun _ => hnil⟩

theorem Inv.dataPhase (h : Inv proto .write s) {wid : BitVec 32} (hs : s.dataPhase proto wid = some s') : Inv proto .write s' := by
  simp only [Channel.dataPhase] at hs
  split at hs
  · cases hs
  · rename_i wt beat hfind
    split at hs
    · cases hs
    · split at hs
      · obtain ⟨htakes, pre, post, hd, hpre⟩ := List.find?_eq_some_iff_append.1 hfind
        obtain ⟨hid, hin⟩ := takesData_prefix htakes hpre
        have herase : s.dataList.eraseP (takesData proto wid) = pre ++ post := by
          rw [hd, List.eraseP_append_right _ (by simpa using hpre), List.eraseP_cons_of_pos htakes]
        obtain rfl := Option.some.inj hs
        have hq := h.enqueue hd hid fun hio => hin (hio.resolve_right (by simp))
        rw [herase]
        split
        · exact Inv.drain hq
        · exact hq
      · obtain rfl := Option.some.inj hs
        have hbeat := h.beat fun e => if e.1 = wt then beat + 1 else e.2
        convert hbeat using 3
        funext e
        split
        · rename_i he
          rw [← he]
        · rfl

/-! ### The threads -/

section Thread

variable {pre post : List Thread} {pc pc' : Pc}

theorem calls_of_append (hn : ((pre ++ ⟨id, pc⟩ :: post).map Thread.transactionID).Nodup) (id' : BitVec 32) :
    calls id' (pre ++ ⟨id, pc⟩ :: post) = if id = id' then (callOf pc).toList else calls id' (pre ++ post) := by
  rw [List.map_append, List.map_cons, List.nodup_middle, List.nodup_cons] at hn
  rw [← List.singleton_append, calls_append, calls_append, calls_append]
  by_cases hid : id = id'
  · subst hid
    have hpre : calls id pre = [] := calls_eq_nil fun hm => hn.1 (List.mem_append_left _ hm)
    have hpost : calls id post = [] := calls_eq_nil fun hm => hn.1 (List.mem_append_right _ hm)
    rw [hpre, hpost]
    cases hc : callOf pc <;> simp [calls, hc]
  · simp [calls, hid]

/-- A thread goes on with a transaction; `new` is what it issues. -/
theorem Inv.thread {new : List Transaction} (h : Inv proto dir s) (hth : s.threads = pre ++ ⟨id, pc⟩ :: post)
    (hpc : PcOk s.list id pc') (hcall : (callOf pc').toList = (callOf pc).toList ++ new) (hnew : ∀ t ∈ new, t.transactionId = id)
    (hbar : proto.isAce = true → ∀ b ∈ new, b.barrier = true → ∀ u, Before s.queued u b → u ∈ s.completed) :
    Inv proto dir { s with threads := pre ++ ⟨id, pc'⟩ :: post, issued := s.issued ++ new } := by
  have hids : (pre ++ (⟨id, pc'⟩ : Thread) :: post).map Thread.transactionID = s.threads.map Thread.transactionID := by
    simp [hth]
  have hnodup := h.threadsNodup
  exact { h with
    threadsNodup := hids ▸ h.threadsNodup
    threadOf := fun id' => hids ▸ h.threadOf id'
    pcOk := fun th hmem => by
      rcases List.mem_append.1 hmem with hmem | hmem
      · exact h.pcOk th (hth ▸ List.mem_append_left _ hmem)
      · rcases List.mem_cons.1 hmem with rfl | hmem
        · exact hpc
        · exact h.pcOk th (hth ▸ List.mem_append_right _ (List.mem_cons_of_mem _ hmem))
    issuedById := fun id' => by
      have hi := h.issuedById id'
      rw [hth] at hi hnodup
      rw [calls_of_append hnodup] at hi
      rw [calls_of_append (by rw [hids, hth]; exact hnodup), ofId_append, hi]
      split
      · rename_i hid
        have : ofId id' new = new := List.filter_eq_self.2 fun t ht => decide_eq_true (hid ▸ hnew t ht)
        rw [this, hcall, List.append_assoc]
      · rename_i hid
        have : ofId id' new = [] := List.filter_eq_nil_iff.2 fun t ht => by simpa [hnew t ht] using hid
        rw [this, List.append_nil]
    barriers := fun hace b hb hbarrier u hu => by
      rcases List.mem_append.1 hb with hb | hb
      · exact h.barriers hace b hb hbarrier u hu
      · exact hbar hace b hb hbarrier u hu }

/-- What `pick` makes of the thread. -/
theorem pick_threads (hth : s.threads = pre ++ ⟨id, pc⟩ :: post) :
    s.pick pre.length id =
      { s with threads := pre ++ ((getFirstWithID s.list id).toList.map fun tr => ⟨id, .waiting tr⟩) ++ post } := by
  unfold pick
  cases getFirstWithID s.list id with
  | none => simp [hth, eraseIdx_middle]
  | some tr => simp [hth]

theorem Inv.start (h : Inv proto dir s) (hth : s.threads = pre ++ ⟨id, .start⟩ :: post) : Inv proto dir (s.pick pre.length id) := by
  obtain ⟨tr, htr⟩ := getFirstWithID_of_inList ((h.threadOf id).1 (by simp [hth]))
  rw [pick_threads hth, htr]
  have hpc : PcOk s.list id (.waiting tr) := htr
  have hw := h.thread hth hpc (List.append_nil _).symm (by simp) (by simp)
  simpa using hw

/-- The call of a thread returns, and its transaction leaves the list for the fifo. -/
theorem Inv.ret (h : Inv proto dir s) (hth : s.threads = pre ++ ⟨id, .calling tr⟩ :: post) :
    Inv proto dir
      ({ s with list := s.list.erase tr, completed := s.completed ++ [tr], fifo := s.fifo ++ [tr] }.pick pre.length id) := by
  have hfirst : getFirstWithID s.list id = some tr := h.pcOk ⟨id, .calling tr⟩ (by simp [hth])
  obtain ⟨hmem, hid⟩ := getFirstWithID_eq_some hfirst
  have hnodup := hth ▸ h.threadsNodup
  -- the ID's own part of the list loses its head, the others' parts are as they were
  obtain ⟨-, l₁, l₂, hl, hl₁⟩ := List.find?_eq_some_iff_append.1 hfirst
  have hnot : tr ∉ l₁ := fun hm => by simpa [hid] using hl₁ tr hm
  have herase : s.list.erase tr = l₁ ++ l₂ := by
    rw [hl, List.erase_append_right _ hnot, List.erase_cons_head]
  have hparts : ∀ id', ofId id' s.list = if id = id' then tr :: ofId id' (l₁ ++ l₂) else ofId id' (l₁ ++ l₂) := by
    intro id'
    rw [hl, ← List.singleton_append, ofId_append, ofId_append, ofId_append, ofId_singleton, hid]
    split
    · rename_i hii
      have hnil : ofId id' l₁ = [] := List.filter_eq_nil_iff.2 fun t ht => by simpa [hii] using hl₁ t ht
      rw [hnil]
      rfl
    · rfl
  have hlist : l₁ ++ l₂ = s.queued.filter fun t => decide (t ∉ s.completed ++ [tr]) := by
    rw [← herase, h.list_nodup.erase_eq_filter]
    conv_lhs => rw [h.list]
    rw [List.filter_filter]
    exact List.filter_congr fun t _ => by simp [and_comm, bne]; rfl
  rw [pick_threads (s := { s with list := s.list.erase tr, completed := s.completed ++ [tr], fifo := s.fifo ++ [tr] }) hth]
  simp only [herase]
  set mid := (getFirstWithID (l₁ ++ l₂) id).toList.map fun tr => (⟨id, .waiting tr⟩ : Thread) with hmid
  have hsub : (pre ++ mid ++ post).map Thread.transactionID |>.Sublist
      ((pre ++ (⟨id, .calling tr⟩ : Thread) :: post).map Thread.transactionID) := by
    cases hg : getFirstWithID (l₁ ++ l₂) id <;> simp [hmid, hg]
  have hother : ∀ {th : Thread}, th ∈ pre ∨ th ∈ post → id ≠ th.transactionID := by
    intro th hm hid
    rw [List.map_append, List.map_cons, List.nodup_middle, List.nodup_cons, ← List.map_append] at hnodup
    exact hnodup.1 (List.mem_map.2 ⟨th, List.mem_append.2 hm, hid.symm⟩)
  have hmidIds : ∀ id', id' ∈ mid.map Thread.transactionID ↔ id' = id ∧ inList (l₁ ++ l₂) id = true := by
    intro id'
    rw [inList_iff_ofId, ← List.isSome_head?, ← getFirstWithID_eq_head?]
    cases hg : getFirstWithID (l₁ ++ l₂) id <;> simp [hmid, hg]
  exact { h with
    list := hlist
    queuedById := fun id' => by
      show ofId id' s.queued = ofId id' (s.completed ++ [tr]) ++ ofId id' (l₁ ++ l₂)
      rw [h.queuedById, hparts, ofId_append id' s.completed, ofId_singleton, hid]
      split <;> simp
    threadsNodup := hnodup.sublist hsub
    threadOf := fun id' => by
      have ht := h.threadOf id'
      rw [hth, inList_iff_ofId, hparts] at ht
      rw [List.map_append, List.map_append, List.mem_append, List.mem_append, hmidIds, inList_iff_ofId]
      by_cases hii : id = id'
      · subst hii
        have hno : id ∉ pre.map Thread.transactionID ∧ id ∉ post.map Thread.transactionID := by
          constructor <;> intro hm <;> obtain ⟨th, hm, hid⟩ := List.mem_map.1 hm
          · exact hother (.inl hm) hid.symm
          · exact hother (.inr hm) hid.symm
        simp [hno, inList_iff_ofId]
      · have hii' : ¬ id' = id := fun h => hii h.symm
        simpa [hii, hii', inList_iff_ofId] using ht
    pcOk := fun th hm => by
      have hsame : id ≠ th.transactionID → th ∈ s.threads → PcOk (l₁ ++ l₂) th.transactionID th.pc := fun hne hm =>
        (h.pcOk th hm).congr (by rw [hparts, if_neg hne])
      rcases List.mem_append.1 hm with hm | hm
      · rcases List.mem_append.1 hm with hm | hm
        · exact hsame (hother (.inl hm)) (hth ▸ List.mem_append_left _ hm)
        · obtain ⟨v, hv, rfl⟩ := List.mem_map.1 hm
          exact Option.mem_toList.1 hv
      · exact hsame (hother (.inr hm)) (hth ▸ List.mem_append_right _ (List.mem_cons_of_mem _ hm))
    issuedById := fun id' => by
      have hi := h.issuedById id'
      have hnone : calls id' mid = [] := by
        cases hg : getFirstWithID (l₁ ++ l₂) id <;> simp [hmid, hg, calls, callOf]
      rw [hth, calls_of_append hnodup] at hi
      show ofId id' s.issued = ofId id' (s.completed ++ [tr]) ++ calls id' (pre ++ mid ++ post)
      rw [hi, ofId_append, ofId_singleton, hid, calls_append id' (pre ++ mid) post, calls_append id' pre mid, hnone]
      split
      · rename_i hii
        subst hii
        have hpre : calls id pre = [] := calls_eq_nil fun hm => by
          obtain ⟨th, hm, hid⟩ := List.mem_map.1 hm
          exact hother (.inl hm) hid.symm
        have hpost : calls id post = [] := calls_eq_nil fun hm => by
          obtain ⟨th, hm, hid⟩ := List.mem_map.1 hm
          exact hother (.inr hm) hid.symm
        simp [hpre, hpost, callOf]
      · simp [calls_append]
    completed := by simp [h.completed]
    barriers := fun hace b hb hbar u hu => List.mem_append_left _ (h.barriers hace b hb hbar u hu)
    count := by
      have hc := h.count
      simp only [hl, List.length_append, List.length_cons, List.length_nil] at hc ⊢
      omega }

end Thread

/-! ### Runs -/

/-- Outside of ACE the limit of transactions leaves room in the fifo. -/
theorem Inv.fifo_room (h : Inv proto dir s) (hmem : tr ∈ s.list) (hok : proto = .ace → s.fifo.length < fifoSize) :
    s.fifo.length < fifoSize := by
  by_cases hp : proto = .ace
  · exact hok hp
  · have hroom := (h.room hp).2
    have hc := h.count
    have hpos := List.length_pos_of_mem hmem
    simp only [List.length_append, maxTransactions, fifoSize] at hc hroom ⊢
    omega

/-- A barrier waits until it is the first of the list. -/
theorem Inv.barrier_of_issue (h : Inv proto dir s) (hmem : tr ∈ s.list) (hace : proto.isAce = true) (hbar : tr.barrier = true)
    (hw : waitForTransactions proto s.list tr = false) (hb : Before s.queued u tr) : u ∈ s.completed := by
  by_contra hu
  have hmet := h.mem_takeWhile hmem hu hb
  unfold waitForTransactions at hw
  split at hw
  · cases hw
  · rename_i hfirst
    simp only [hace, hbar, Bool.true_and, decide_eq_true_eq, not_not] at hfirst
    obtain ⟨l, hl⟩ := List.head?_eq_some_iff.1 hfirst
    rw [hl] at hmet
    simp at hmet

theorem Inv.step (h : Inv proto dir s) (hr : dir = .read → s.dataList = []) {a : Action} (hok : RoomOk proto s a)
    (hs : step proto dir s a = some s') : Inv proto dir s' ∧ (dir = .read → s'.dataList = []) := by
  cases a with
  | address p => exact h.addressPhase hr hs
  | data wid =>
    simp only [Channel.step] at hs
    split at hs
    · rename_i hdir
      subst hdir
      exact ⟨h.dataPhase hs, fun hd => absurd hd (by simp)⟩
    · cases hs
  | start k =>
    simp only [Channel.step] at hs
    split at hs
    · rename_i id hk
      obtain ⟨pre, post, hth, rfl⟩ := exists_append_of_getElem? hk
      obtain rfl := Option.some.inj hs
      refine ⟨h.start hth, ?_⟩
      rw [pick_threads hth]
      exact hr
    · cases hs
  | issue k =>
    simp only [Channel.step] at hs
    split at hs
    · rename_i id tr hk
      obtain ⟨pre, post, hth, rfl⟩ := exists_append_of_getElem? hk
      have hpc : getFirstWithID s.list id = some tr := h.pcOk ⟨id, .waiting tr⟩ (by simp [hth])
      obtain ⟨hmem, hid⟩ := getFirstWithID_eq_some hpc
      split at hs
      · cases hs
      · rename_i hw
        obtain rfl := Option.some.inj hs
        refine ⟨?_, hr⟩
        have hset : s.threads.set pre.length ⟨id, .calling tr⟩ = pre ++ ⟨id, .calling tr⟩ :: post := by
          simp [hth]
        rw [hset]
        have hcalling : PcOk s.list id (.calling tr) := hpc
        refine h.thread hth hcalling rfl (by simpa using hid) fun hace b hb hbar u hu => ?_
        obtain rfl := List.mem_singleton.1 hb
        exact h.barrier_of_issue hmem hace hbar (by simpa using hw) hu
    · cases hs
  | ret k =>
    simp only [Channel.step] at hs
    split at hs
    · rename_i id tr hk
      obtain ⟨pre, post, hth, rfl⟩ := exists_append_of_getElem? hk
      have hpc : getFirstWithID s.list id = some tr := h.pcOk ⟨id, .calling tr⟩ (by simp [hth])
      rw [if_pos (h.fifo_room (getFirstWithID_eq_some hpc).1 hok)] at hs
      obtain rfl := Option.some.inj hs
      refine ⟨h.ret hth, ?_⟩
      rw [pick_threads (s := { s with list := s.list.erase tr, completed := s.completed ++ [tr], fifo := s.fifo ++ [tr] }) hth]
      exact hr
    · cases hs
  | written k =>
    simp only [Channel.step] at hs
    split at hs
    · -- no thread is blocked
      rename_i id tr hk
      exact absurd (h.pcOk _ (List.mem_of_getElem? hk)) (by simp [PcOk])
    · cases hs
  | respond =>
    simp only [Channel.step] at hs
    split at hs
    · rename_i tr rest hnone hfifo
      obtain rfl := Option.some.inj hs
      refine ⟨{ h with completed := ?_, count := ?_ }, hr⟩
      · simp [h.completed, hnone, hfifo]
      · simpa [hnone, hfifo] using h.count
    · cases hs
  | answer =>
    simp only [Channel.step] at hs
    split at hs
    · rename_i tr hresp
      obtain rfl := Option.some.inj hs
      refine ⟨{ h with completed := ?_, count := ?_, room := ?_ }, hr⟩
      · simp [h.completed, hresp]
      · have hc := h.count
        simp only [hresp, Option.toList_some, List.length_append, List.length_cons, List.length_nil, Option.toList_none] at hc ⊢
        omega
      · intro hp
        obtain ⟨hb, hn⟩ := h.room hp
        refine ⟨?_, (Nat.sub_le _ _).trans hn⟩
        rw [if_neg fun hc => hp hc.1, hb]
    · cases hs

/-- What can be issued is in the list, and waits for nothing. -/
theorem Inv.of_issues (h : Inv proto dir s) (hi : s.Issues proto dir t) : t ∈ s.list ∧ waitForTransactions proto s.list t = false := by
  obtain ⟨k, s', hs, hlog⟩ := hi
  simp only [Channel.step] at hs
  split at hs
  · rename_i id tr hk
    split at hs
    · cases hs
    · rename_i hw
      obtain rfl := Option.some.inj hs
      obtain rfl : tr = t := by simpa using hlog
      have hpc : getFirstWithID s.list id = some tr := h.pcOk _ (List.mem_of_getElem? hk)
      exact ⟨(getFirstWithID_eq_some hpc).1, by simpa using hw⟩
  · cases hs

/-- What is issued next has passed each check of `WaitForTransactions`. -/
theorem not_waiting (hw : waitForTransactions proto s.list t = false) :
    overlappingAddress s.list t = false ∧
      (proto.isAce = true → t.barrier = false → (t.isWriteBack || t.isWriteClean || t.isEvict) = false →
        isAfterBarrier s.list t = false) := by
  unfold waitForTransactions at hw
  split at hw
  · cases hw
  · split at hw
    · cases hw
    · rename_i hafter
      refine ⟨hw, fun hace hbar hcopy => ?_⟩
      simp only [Bool.or_eq_false_iff] at hcopy
      simpa [hace, hbar, hcopy] using hafter

/-- Of an ID at most the first of the list is called. -/
theorem Inv.calls_prefix (h : Inv proto dir s) (id : BitVec 32) : calls id s.threads <+: ofId id s.list := by
  by_cases hid : id ∈ s.threads.map Thread.transactionID
  · obtain ⟨⟨_, pc⟩, hth, rfl⟩ := List.mem_map.1 hid
    obtain ⟨pre, post, heq⟩ := List.append_of_mem hth
    have hnodup := h.threadsNodup
    have hok := h.pcOk _ hth
    rw [heq] at hnodup ⊢
    rw [calls_of_append hnodup, if_pos rfl]
    cases pc with
    | calling tr =>
      simp only [PcOk, getFirstWithID_eq_head?] at hok
      obtain ⟨l, hl⟩ := List.head?_eq_some_iff.1 hok
      rw [hl]
      exact List.prefix_append [tr] l
    | start => exact List.nil_prefix
    | waiting tr => exact List.nil_prefix
    | writing tr => exact List.nil_prefix
  · rw [calls_eq_nil hid]
    exact List.nil_prefix

theorem Inv.issued_of_completed (h : Inv proto dir s) (ht : t ∈ s.completed) : t ∈ s.issued := by
  have hmem : t ∈ ofId t.transactionId s.issued := by
    rw [h.issuedById]
    exact List.mem_append_left _ (mem_ofId.2 ⟨ht, rfl⟩)
  exact (mem_ofId.1 hmem).1

theorem Inv.ordered (h : Inv proto dir s) : s.Ordered proto dir := by
  have hqueued : ∀ id, ofId id s.queued <+: ofId id s.accepted := fun id => ⟨_, (h.byId id).symm⟩
  constructor
  case issued =>
    intro id
    refine List.IsPrefix.trans ?_ (hqueued id)
    rw [h.issuedById, h.queuedById]
    exact (List.prefix_append_right_inj _).2 (h.calls_prefix id)
  case answered =>
    intro id
    refine List.IsPrefix.trans ?_ (hqueued id)
    rw [h.queuedById, h.completed, ofId_append, List.append_assoc]
    exact List.prefix_append _ _
  case page =>
    intro t hi u hb hpage
    obtain ⟨hmem, hw⟩ := h.of_issues hi
    by_contra hu
    have hmet := h.mem_takeWhile hmem hu (h.before_queued (h.mem_list_iff.1 hmem).1 hb)
    have hno := (not_waiting hw).1
    simp only [overlappingAddress, List.any_eq_false, decide_eq_true_eq] at hno
    exact hno u hmet hpage
  case barrier =>
    intro hace b hbar hi u hb
    obtain ⟨hmem, hw⟩ := h.of_issues hi
    exact h.barrier_of_issue hmem hace hbar hw (h.before_queued (h.mem_list_iff.1 hmem).1 hb)
  case afterBarrier =>
    intro hace t hi hcopy b hbar hbt u hub
    obtain ⟨hmem, hw⟩ := h.of_issues hi
    have hbt := h.before_queued (h.mem_list_iff.1 hmem).1 hbt
    have hdone : b ∈ s.completed := by
      cases ht : t.barrier with
      | true => exact h.barrier_of_issue hmem hace ht hw hbt
      | false =>
        by_contra hb
        have hno := (not_waiting hw).2 hace ht hcopy
        simp only [isAfterBarrier, List.any_eq_false] at hno
        exact hno b (h.mem_takeWhile hmem hb hbt) hbar
    exact h.barriers hace b (h.issued_of_completed hdone) hbar u (h.before_queued hbt.left_mem hub)

/-- A write of one beat. -/
def writePhase : AddressPhase := { axid := 0, axaddr := 0, axlen := 0 }

/-- A barrier of another ID. -/
def barrierPhase : AddressPhase := { axid := 1, axaddr := 0x1000, axlen := 0, axdomain := .inner, axbar := 1 }

/-- A copy-back of a third ID, to another page than the write. -/
def copyBackPhase : AddressPhase := { axid := 2, axaddr := 0x2000, axlen := 0, awsnoop := .writeBack, axdomain := .inner }

end LibSystemCTLM.Axi.Channel
