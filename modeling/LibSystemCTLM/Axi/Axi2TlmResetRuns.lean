import LibSystemCTLM.Axi.Axi2TlmReset
import LibSystemCTLM.Axi.Axi2TlmOrdered

/-!
# What is left after a reset of `axi2tlm_bridge`

Three parts of a direction, each with its invariant: the list and the threads that serve it (`Served`),
the counters and what they count (`Counts`), and all lists together (`State.Lists`). A reset keeps of the
list what the threads have, and by the time it is released each of them is in a call of the target.

`recovers_of_reach` puts them together for all runs. Its condition at a reset is needed:
`exists_stuck_after_reset` loses a counted barrier, whose counter nothing clears.
-/

namespace LibSystemCTLM.Axi.Reset

open Foundation

variable {proto : Protocol} {dir : Direction} {s s' : State} {resetn : Bool} {list : List Item} {threads pre post : List Thread}
variable {tr : Transaction} {id : BitVec 32} {pc : Pc} {k : ℕ}

/-! ### The threads and their transactions -/

/-- What holds between the list and the threads of `RunTLMTransaction`. -/
structure Served (resetn : Bool) (list : List Item) (threads : List Thread) : Prop where
  ids : (threads.map Thread.transactionID).Nodup
  /-- No thread is spawned for an ID that has one. -/
  entry : resetn = true → ∀ th ∈ threads, ∃ i ∈ list, i.tr.transactionId = th.transactionID
  /-- A thread's transaction is in the list, and is not freed there. -/
  holds : ∀ th ∈ threads, ∀ tr, th.pc.tr? = some tr → tr.transactionId = th.transactionID ∧ ∃ i ∈ list, i.tr = tr ∧ i.tlmOngoing = true
  /-- Only a thread in a call has missed a reset. -/
  fresh : resetn = true → ∀ th ∈ threads, ∀ tr, th.pc = .waiting tr ∨ th.pc = .delaying tr → ∀ i ∈ list, i.tr = tr → i.abortScheduled = false
  ongoing : ∀ i ∈ list, i.tlmOngoing = true → ∃ th ∈ threads, th.pc.tr? = some i.tr
  aborted : ∀ i ∈ list, i.abortScheduled = true → i.tlmOngoing = true

theorem not_mem_ids (h : ((pre ++ ⟨id, pc⟩ :: post).map Thread.transactionID).Nodup) {th : Thread} (hth : th ∈ pre ++ post) :
    th.transactionID ≠ id := by
  rw [List.map_append, List.map_cons] at h
  have hnot := (List.nodup_cons.1 (List.nodup_middle.1 h)).1
  rw [← List.map_append] at hnot
  exact fun hc => hnot (List.mem_map.2 ⟨th, hth, hc⟩)

theorem nodup_ids (h : ((pre ++ ⟨id, pc⟩ :: post).map Thread.transactionID).Nodup) : ((pre ++ post).map Thread.transactionID).Nodup := by
  rw [List.map_append, List.map_cons] at h
  rw [List.map_append]
  exact (List.nodup_cons.1 (List.nodup_middle.1 h)).2

/-- A transaction is put into the list; a thread is spawned for its ID if there is none. -/
theorem Served.enqueue (h : Served true list threads) (tr : Transaction) :
    Served true (list ++ [{ tr := tr }])
      (if inList (list.map Item.tr) tr.transactionId then threads else threads ++ [⟨tr.transactionId, .start⟩]) := by
  have hold {i : Item} (hi : i ∈ list ++ [{ tr := tr }]) : i ∈ list ∨ i = { tr := tr } := (List.mem_append.1 hi).imp (fun h => h) List.mem_singleton.1
  have hnew {th : Thread} (hth : th ∈ if inList (list.map Item.tr) tr.transactionId then threads else threads ++ [⟨tr.transactionId, .start⟩]) :
      th ∈ threads ∨ th = ⟨tr.transactionId, .start⟩ := by
    split at hth
    · exact .inl hth
    · exact (List.mem_append.1 hth).imp (fun h => h) List.mem_singleton.1
  have hkeep {th : Thread} (hth : th ∈ threads) :
      th ∈ if inList (list.map Item.tr) tr.transactionId then threads else threads ++ [⟨tr.transactionId, .start⟩] := by
    split
    · exact hth
    · exact List.mem_append_left _ hth
  refine ⟨?_, fun _ th hth => ?_, fun th hth u hu => ?_, fun _ th hth u hu i hi hiu => ?_, fun i hi hon => ?_, fun i hi hab => ?_⟩
  · split
    · exact h.ids
    · rename_i hno
      rw [List.map_append, List.nodup_append]
      refine ⟨h.ids, List.nodup_singleton _, ?_⟩
      rintro a ha b hb rfl
      obtain rfl : a = tr.transactionId := List.mem_singleton.1 hb
      obtain ⟨th, hth, hid⟩ := List.mem_map.1 ha
      obtain ⟨i, hi, hiid⟩ := h.entry rfl th hth
      exact hno (Channel.inList_iff.2 ⟨i.tr, List.mem_map_of_mem hi, hiid.trans hid⟩)
  · rcases hnew hth with hth | rfl
    · obtain ⟨i, hi, hid⟩ := h.entry rfl th hth
      exact ⟨i, List.mem_append_left _ hi, hid⟩
    · exact ⟨_, List.mem_append_right _ (List.mem_singleton_self _), rfl⟩
  · rcases hnew hth with hth | rfl
    · obtain ⟨hid, i, hi, hiu, hon⟩ := h.holds th hth u hu
      exact ⟨hid, i, List.mem_append_left _ hi, hiu, hon⟩
    · cases hu
  · rcases hold hi with hi | rfl
    · rcases hnew hth with hth | rfl
      · exact h.fresh rfl th hth u hu i hi hiu
      · rcases hu with hu | hu <;> cases hu
    · rfl
  · rcases hold hi with hi | rfl
    · obtain ⟨th, hth, hu⟩ := h.ongoing i hi hon
      exact ⟨th, hkeep hth, hu⟩
    · cases hon
  · rcases hold hi with hi | rfl
    · exact h.aborted i hi hab
    · cases hab

/-- The thread goes on with its transaction. -/
theorem Served.move (h : Served resetn list (pre ++ ⟨id, pc⟩ :: post)) {pc' : Pc} (hpc : pc'.tr? = pc.tr?)
    (hfresh : resetn = true → ∀ tr, pc' = .waiting tr ∨ pc' = .delaying tr → ∀ i ∈ list, i.tr = tr → i.abortScheduled = false) :
    Served resetn list (pre ++ ⟨id, pc'⟩ :: post) := by
  refine ⟨?_, fun hr th hth => ?_, fun th hth u hu => ?_, fun hr th hth u hu => ?_, fun i hi hon => ?_, h.aborted⟩
  · simpa only [List.map_append, List.map_cons] using h.ids
  · rcases mem_middle.1 hth with rfl | hth
    · exact h.entry hr ⟨id, pc⟩ (mem_middle.2 (.inl rfl))
    · exact h.entry hr th (mem_middle.2 (.inr hth))
  · rcases mem_middle.1 hth with rfl | hth
    · exact h.holds ⟨id, pc⟩ (mem_middle.2 (.inl rfl)) u (hpc ▸ hu)
    · exact h.holds th (mem_middle.2 (.inr hth)) u hu
  · rcases mem_middle.1 hth with rfl | hth
    · exact hfresh hr u hu
    · exact h.fresh hr th (mem_middle.2 (.inr hth)) u hu
  · obtain ⟨th, hth, hu⟩ := h.ongoing i hi hon
    rcases mem_middle.1 hth with rfl | hth
    · exact ⟨⟨id, pc'⟩, mem_middle.2 (.inl rfl), hpc.trans hu⟩
    · exact ⟨th, mem_middle.2 (.inr hth), hu⟩

theorem Served.drop (h : Served resetn list (pre ++ ⟨id, pc⟩ :: post)) (hpc : pc.tr? = none) : Served resetn list (pre ++ post) := by
  have hmem {th : Thread} (hth : th ∈ pre ++ post) : th ∈ pre ++ ⟨id, pc⟩ :: post := mem_middle.2 (.inr hth)
  refine ⟨nodup_ids h.ids, fun hr th hth => h.entry hr th (hmem hth), fun th hth => h.holds th (hmem hth), fun hr th hth => h.fresh hr th (hmem hth),
    fun i hi hon => ?_, h.aborted⟩
  obtain ⟨th, hth, hu⟩ := h.ongoing i hi hon
  rcases mem_middle.1 hth with rfl | hth
  · rw [hpc] at hu
    cases hu
  · exact ⟨th, hth, hu⟩

theorem Served.leave (h : Served resetn list (pre ++ ⟨id, pc⟩ :: post)) (hpc : pc.tr? = some tr) :
    Served resetn (list.filter fun i => decide (i.tr ≠ tr)) (pre ++ post) := by
  have hmem {th : Thread} (hth : th ∈ pre ++ post) : th ∈ pre ++ ⟨id, pc⟩ :: post := mem_middle.2 (.inr hth)
  have hid : tr.transactionId = id := (h.holds ⟨id, pc⟩ (mem_middle.2 (.inl rfl)) tr hpc).1
  have hother {th : Thread} (hth : th ∈ pre ++ post) {u : Transaction} (hu : u.transactionId = th.transactionID) : u ≠ tr :=
    fun hc => not_mem_ids h.ids hth (hu.symm.trans ((congrArg Transaction.transactionId hc).trans hid))
  have hin {i : Item} (hi : i ∈ list) (hne : i.tr ≠ tr) : i ∈ list.filter fun i => decide (i.tr ≠ tr) :=
    List.mem_filter.2 ⟨hi, decide_eq_true hne⟩
  refine ⟨nodup_ids h.ids, fun hr th hth => ?_, fun th hth u hu => ?_, fun hr th hth u hu i hi => ?_, fun i hi hon => ?_, fun i hi => ?_⟩
  · obtain ⟨i, hi, hiid⟩ := h.entry hr th (hmem hth)
    exact ⟨i, hin hi (hother hth hiid), hiid⟩
  · obtain ⟨hiid, i, hi, hiu, hon⟩ := h.holds th (hmem hth) u hu
    exact ⟨hiid, i, hin hi (hiu ▸ hother hth hiid), hiu, hon⟩
  · exact h.fresh hr th (hmem hth) u hu i (List.mem_filter.1 hi).1
  · obtain ⟨hi, hne⟩ := List.mem_filter.1 hi
    obtain ⟨th, hth, hu⟩ := h.ongoing i hi hon
    rcases mem_middle.1 hth with rfl | hth
    · exact absurd (Option.some.inj (hu.symm.trans hpc)) (of_decide_eq_true hne)
    · exact ⟨th, hth, hu⟩
  · exact h.aborted i (List.mem_filter.1 hi).1

/-- A thread takes the next transaction of its ID. -/
theorem Served.take (h : Served resetn list (pre ++ post)) (hid : ∀ th ∈ pre ++ post, th.transactionID ≠ id)
    (htr : getFirstWithID (list.map Item.tr) id = some tr) :
    Served resetn (list.map fun i => if i.tr = tr then { i with tlmOngoing := true } else i) (pre ++ ⟨id, .waiting tr⟩ :: post) := by
  obtain ⟨hmem, htid⟩ := Channel.getFirstWithID_eq_some htr
  obtain ⟨i₀, hi₀, hi₀tr⟩ := List.mem_map.1 hmem
  -- an item keeps all but the one flag
  have hof {j : Item} (hj : j ∈ list.map fun i => if i.tr = tr then { i with tlmOngoing := true } else i) :
      ∃ i ∈ list, j.tr = i.tr ∧ j.abortScheduled = i.abortScheduled ∧ (j.tlmOngoing = i.tlmOngoing ∨ i.tr = tr ∧ j.tlmOngoing = true) := by
    obtain ⟨i, hi, rfl⟩ := List.mem_map.1 hj
    refine ⟨i, hi, ?_⟩
    split
    · rename_i heq
      exact ⟨rfl, rfl, .inr ⟨heq, rfl⟩⟩
    · exact ⟨rfl, rfl, .inl rfl⟩
  have hto {i : Item} (hi : i ∈ list) : ∃ j ∈ list.map (fun i => if i.tr = tr then { i with tlmOngoing := true } else i),
      j.tr = i.tr ∧ (i.tlmOngoing = true ∨ i.tr = tr → j.tlmOngoing = true) := by
    refine ⟨_, List.mem_map_of_mem hi, ?_⟩
    split
    · exact ⟨rfl, fun _ => rfl⟩
    · rename_i hne
      exact ⟨rfl, fun h => h.resolve_right hne⟩
  -- no thread has the transaction yet
  have hnone {i : Item} (hi : i ∈ list) (hitr : i.tr = tr) : i.tlmOngoing = false := by
    by_contra hon
    obtain ⟨th, hth, hu⟩ := h.ongoing i hi (by simpa using hon)
    exact hid th hth ((h.holds th hth i.tr hu).1.symm.trans (hitr ▸ htid))
  refine ⟨?_, fun hr th hth => ?_, fun th hth u hu => ?_, fun hr th hth u hu j hj hju => ?_, fun j hj hon => ?_, fun j hj hab => ?_⟩
  · rw [List.map_append, List.map_cons]
    refine List.nodup_middle.2 (List.nodup_cons.2 ⟨?_, ?_⟩)
    · rw [← List.map_append]
      intro hc
      obtain ⟨th, hth, heq⟩ := List.mem_map.1 hc
      exact hid th hth heq
    · rw [← List.map_append]
      exact h.ids
  · rcases mem_middle.1 hth with rfl | hth
    · obtain ⟨j, hj, hjtr, -⟩ := hto hi₀
      exact ⟨j, hj, by rw [hjtr, hi₀tr, htid]⟩
    · obtain ⟨i, hi, hiid⟩ := h.entry hr th hth
      obtain ⟨j, hj, hjtr, -⟩ := hto hi
      exact ⟨j, hj, hjtr ▸ hiid⟩
  · rcases mem_middle.1 hth with rfl | hth
    · cases hu
      obtain ⟨j, hj, hjtr, hon⟩ := hto hi₀
      exact ⟨htid, j, hj, hjtr.trans hi₀tr, hon (.inr hi₀tr)⟩
    · obtain ⟨hiid, i, hi, hiu, hon⟩ := h.holds th hth u hu
      obtain ⟨j, hj, hjtr, hj'⟩ := hto hi
      exact ⟨hiid, j, hj, hjtr.trans hiu, hj' (.inl hon)⟩
  · obtain ⟨i, hi, hjtr, hjab, -⟩ := hof hj
    rw [hjab]
    rcases mem_middle.1 hth with rfl | hth
    · have htu : tr = u := by
        rcases hu with hu | hu
        · exact (Pc.waiting.inj hu)
        · cases hu
      by_contra hab
      have hon := h.aborted i hi (by simpa using hab)
      rw [hnone hi (hjtr.symm.trans (hju.trans htu.symm))] at hon
      cases hon
    · exact h.fresh hr th hth u hu i hi (hjtr ▸ hju)
  · obtain ⟨i, hi, hjtr, -, hj'⟩ := hof hj
    rw [hjtr]
    rcases hj' with hj' | ⟨hitr, -⟩
    · obtain ⟨th, hth, hu⟩ := h.ongoing i hi (hj' ▸ hon)
      exact ⟨th, mem_middle.2 (.inr hth), hu⟩
    · exact ⟨⟨id, .waiting tr⟩, mem_middle.2 (.inl rfl), congrArg some hitr.symm⟩
  · obtain ⟨i, hi, -, hjab, hj'⟩ := hof hj
    rcases hj' with hj' | ⟨-, hon⟩
    · exact hj'.trans (h.aborted i hi (hjab ▸ hab))
    · exact hon

/-- `TLMListClear` keeps what the threads have. -/
theorem Served.clear (h : Served resetn list threads) : Served false (State.tlmListClear list) threads := by
  refine ⟨h.ids, nofun, fun th hth u hu => ?_, nofun, fun j hj _ => ?_, fun j hj _ => ?_⟩
  · obtain ⟨hid, i, hi, hiu, hon⟩ := h.holds th hth u hu
    exact ⟨hid, _, List.mem_map_of_mem (List.mem_filter.2 ⟨hi, hon⟩), hiu, hon⟩
  · obtain ⟨i, hi, rfl⟩ := List.mem_map.1 hj
    exact h.ongoing i (List.mem_filter.1 hi).1 (List.mem_filter.1 hi).2
  · obtain ⟨i, hi, rfl⟩ := List.mem_map.1 hj
    exact (List.mem_filter.1 hi).2

/-- When reset is released every thread is in a call. -/
theorem Served.release (h : Served false list threads) (hcall : ∀ th ∈ threads, ∃ tr, th.pc = .calling tr) : Served true list threads := by
  refine ⟨h.ids, fun _ th hth => ?_, h.holds, fun _ th hth u hu => ?_, h.ongoing, h.aborted⟩
  · obtain ⟨tr, hpc⟩ := hcall th hth
    obtain ⟨hid, i, hi, hitr, -⟩ := h.holds th hth tr (by rw [hpc]; rfl)
    exact ⟨i, hi, hitr ▸ hid⟩
  · obtain ⟨tr, hpc⟩ := hcall th hth
    rw [hpc] at hu
    rcases hu with hu | hu <;> cases hu

/-! ### The counters -/

/-- The counters count a list of transactions, within the limits of the bridge. -/
structure Counts (proto : Protocol) (l : List Transaction) (num bars : BitVec 32) : Prop where
  num : num = BitVec.ofNat 32 l.length
  bars : bars = BitVec.ofNat 32 (l.countP (counted proto))
  le : (l.countP fun tr => !counted proto tr) ≤ maxTransactions
  barsLe : l.countP (counted proto) ≤ maxBarriers

variable {l l' : List Transaction} {num bars : BitVec 32}

theorem length_eq_counts (proto : Protocol) (l : List Transaction) :
    l.length = l.countP (counted proto) + l.countP fun tr => !counted proto tr := by
  rw [List.length_eq_countP_add_countP (counted proto)]
  congr 2
  funext tr
  cases counted proto tr <;> rfl

theorem counts_nil (proto : Protocol) : Counts proto [] 0 0 := ⟨rfl, rfl, Nat.zero_le _, Nat.zero_le _⟩

theorem Counts.perm (h : Counts proto l num bars) (hp : l'.Perm l) : Counts proto l' num bars :=
  ⟨h.num.trans (congrArg _ hp.length_eq.symm), h.bars.trans (congrArg _ (hp.countP_eq _).symm), (hp.countP_eq _).trans_le h.le,
    (hp.countP_eq _).trans_le h.barsLe⟩

/-- The difference of the counters does not underflow. -/
theorem Counts.toNat (h : Counts proto l num bars) :
    num.toNat = l.length ∧ bars.toNat = l.countP (counted proto) ∧ (num - bars).toNat = l.countP fun tr => !counted proto tr := by
  have hlen := length_eq_counts proto l
  have hle := h.le
  have hbars := h.barsLe
  simp only [maxTransactions, maxBarriers] at hle hbars
  have hnum : num.toNat = l.length := by
    rw [h.num, BitVec.toNat_ofNat]
    omega
  have hbar : bars.toNat = l.countP (counted proto) := by
    rw [h.bars, BitVec.toNat_ofNat]
    omega
  refine ⟨hnum, hbar, ?_⟩
  rw [BitVec.toNat_sub, hnum, hbar]
  omega

theorem counted_eq_false (hp : proto ≠ .ace) (tr : Transaction) : counted proto tr = false := by
  rw [counted, decide_eq_false hp, Bool.false_and]

theorem countP_counted (hp : proto ≠ .ace) (l : List Transaction) : l.countP (counted proto) = 0 :=
  List.countP_eq_zero.2 fun tr _ => by simp [counted_eq_false hp]

theorem Counts.ready (h : Counts proto l s.numTransactions s.numBarriers) :
    s.assertReady proto = true ↔ (l.countP fun tr => !counted proto tr) < maxTransactions ∧ l.countP (counted proto) < maxBarriers := by
  obtain ⟨-, hbar, hsub⟩ := h.toNat
  rw [State.assertReady, State.getNumOngoing, hsub, hbar, Bool.and_eq_true, decide_eq_true_eq, Bool.not_eq_true', Bool.and_eq_false_iff,
    decide_eq_false_iff_not, decide_eq_false_iff_not, Nat.not_le]
  refine and_congr_right fun _ => ⟨?_, .inr⟩
  rintro (hp | hlt)
  · rw [countP_counted hp]
    decide
  · exact hlt

theorem Counts.cons (h : Counts proto l num bars) (tr : Transaction) (hlt : (l.countP fun tr => !counted proto tr) < maxTransactions)
    (hbars : l.countP (counted proto) < maxBarriers) :
    Counts proto (tr :: l) (num + 1) (if counted proto tr = true then bars + 1 else bars) := by
  refine ⟨?_, ?_, ?_, ?_⟩
  · rw [h.num, List.length_cons, BitVec.ofNat_add]
    rfl
  · rw [List.countP_cons, h.bars]
    split
    · rw [BitVec.ofNat_add]
      rfl
    · rw [Nat.add_zero]
  · rw [List.countP_cons]
    split <;> omega
  · rw [List.countP_cons]
    split <;> omega

theorem Counts.uncons (h : Counts proto (tr :: l) num bars) :
    Counts proto l (num - 1) (if counted proto tr = true then bars - 1 else bars) := by
  have hle := h.le
  have hbarsLe := h.barsLe
  rw [List.countP_cons] at hle hbarsLe
  refine ⟨?_, ?_, by omega, by omega⟩
  · rw [h.num, List.length_cons, BitVec.ofNat_add]
    exact BitVec.add_sub_cancel _ _
  · rw [h.bars, List.countP_cons]
    split
    · rw [BitVec.ofNat_add]
      exact BitVec.add_sub_cancel _ _
    · rw [Nat.add_zero]

/-! ### The lists -/

namespace State

/-- What holds of the lists and the counters. While reset is asserted, what is left are the transactions
that the target has and the one that is being answered. -/
structure Lists (proto : Protocol) (s : State) : Prop where
  nodup : (s.dataList.map Prod.fst ++ s.list.map Item.tr).Nodup
  lt : ∀ t ∈ s.dataList.map Prod.fst ++ s.list.map Item.tr, t.serial < s.next
  ack : ∀ tr, s.resp = .ack tr → proto = .ace
  high : s.resetn = true → Counts proto s.outstanding s.numTransactions s.numBarriers
  low : s.resetn = false → s.numTransactions = 0 ∧ s.numBarriers = BitVec.ofNat 32 (s.respBarriers proto) ∧ s.dataList = [] ∧ s.fifo = [] ∧
    (∀ i ∈ s.list, i.tlmOngoing = true ∧ i.abortScheduled = true) ∧ ∀ tr, s.resp = .snoop tr → counted proto tr = false

/-- The invariant of a direction. -/
structure Inv (proto : Protocol) (s : State) : Prop where
  served : Served s.resetn s.list s.threads
  room : ∀ th ∈ s.threads, ∀ tr, th.pc ≠ .writing tr
  lists : s.Lists proto

theorem inv_init (proto : Protocol) : Inv proto {} where
  served := ⟨List.nodup_nil, fun _ _ h => absurd h List.not_mem_nil, fun _ h => absurd h List.not_mem_nil, fun _ _ h => absurd h List.not_mem_nil,
    fun _ h => absurd h List.not_mem_nil, fun _ h => absurd h List.not_mem_nil⟩
  room _ h := absurd h List.not_mem_nil
  lists := ⟨List.nodup_nil, fun _ h => absurd h List.not_mem_nil, fun _ => nofun, fun _ => counts_nil proto, nofun⟩

theorem Lists.list_nodup (h : s.Lists proto) : (s.list.map Item.tr).Nodup := (List.nodup_append.1 h.nodup).2.1

/-- The transactions of the list are told apart. -/
theorem Lists.item_inj (h : s.Lists proto) {i j : Item} (hi : i ∈ s.list) (hj : j ∈ s.list) (heq : i.tr = j.tr) : i = j :=
  List.inj_on_of_nodup_map h.list_nodup hi hj heq

/-- `SetTLMOngoing` changes nothing that is counted. -/
theorem outstanding_setTLMOngoing (s : State) (tr : Transaction) : (s.setTLMOngoing tr).outstanding = s.outstanding := by
  have hlist : (((s.setTLMOngoing tr).list.filter fun i => !i.abortScheduled).map Item.tr) =
      (s.list.filter fun i => !i.abortScheduled).map Item.tr := by
    simp only [setTLMOngoing, List.filter_map, List.map_map]
    have hfilter : ((fun i : Item => !i.abortScheduled) ∘ fun i => if i.tr = tr then { i with tlmOngoing := true } else i) =
        fun i => !i.abortScheduled := by
      funext i
      simp only [Function.comp_apply]
      split <;> rfl
    rw [hfilter]
    refine List.map_congr_left fun i _ => ?_
    simp only [Function.comp_apply]
    split <;> rfl
  simp only [outstanding, hlist]
  rfl

theorem Lists.setTLMOngoing (h : s.Lists proto) (tr : Transaction) (threads : List Thread) :
    ({ s.setTLMOngoing tr with threads := threads } : State).Lists proto := by
  have htr : (s.setTLMOngoing tr).list.map Item.tr = s.list.map Item.tr := by
    simp only [State.setTLMOngoing, List.map_map]
    refine List.map_congr_left fun i _ => ?_
    simp only [Function.comp_apply]
    split <;> rfl
  refine ⟨?_, ?_, h.ack, fun hr => ?_, fun hr => ?_⟩
  · change (s.dataList.map Prod.fst ++ (s.setTLMOngoing tr).list.map Item.tr).Nodup
    rw [htr]
    exact h.nodup
  · change ∀ t ∈ s.dataList.map Prod.fst ++ (s.setTLMOngoing tr).list.map Item.tr, t.serial < s.next
    rw [htr]
    exact h.lt
  · change Counts proto (s.setTLMOngoing tr).outstanding _ _
    rw [outstanding_setTLMOngoing]
    exact h.high hr
  · obtain ⟨hnum, hbars, hdata, hfifo, hlist, hsnoop⟩ := h.low hr
    refine ⟨hnum, hbars, hdata, hfifo, fun j hj => ?_, hsnoop⟩
    obtain ⟨i, hi, rfl⟩ := List.mem_map.1 hj
    split
    · exact ⟨rfl, (hlist i hi).2⟩
    · exact hlist i hi

theorem outstanding_remove (htr : ∀ i ∈ s.list, i.tr = tr → i.abortScheduled = true) : (s.remove tr).outstanding = s.outstanding := by
  have hlist : (s.remove tr).list.filter (fun i => !i.abortScheduled) = s.list.filter fun i => !i.abortScheduled := by
    simp only [remove, List.filter_filter]
    refine List.filter_congr fun i hi => ?_
    by_cases heq : i.tr = tr
    · simp [htr i hi heq]
    · simp [heq]
  simp only [outstanding, hlist]
  rfl

theorem Lists.remove (h : s.Lists proto) (htr : s.resetn = true → ∀ i ∈ s.list, i.tr = tr → i.abortScheduled = true) (threads : List Thread) :
    ({ s.remove tr with threads := threads } : State).Lists proto := by
  have hsub : List.Sublist (s.dataList.map Prod.fst ++ (s.remove tr).list.map Item.tr) (s.dataList.map Prod.fst ++ s.list.map Item.tr) :=
    (List.Sublist.refl _).append (List.filter_sublist.map _)
  refine ⟨h.nodup.sublist hsub, fun t ht => h.lt t (hsub.subset ht), h.ack, fun hr => ?_, fun hr => ?_⟩
  · change Counts proto (s.remove tr).outstanding _ _
    rw [outstanding_remove (htr hr)]
    exact h.high hr
  · obtain ⟨hnum, hbars, hdata, hfifo, hlist, hsnoop⟩ := h.low hr
    exact ⟨hnum, hbars, hdata, hfifo, fun i hi => hlist i (List.mem_filter.1 hi).1, hsnoop⟩

/-- A transaction goes from the list into the fifo. -/
theorem outstanding_toFifo (h : s.Lists proto) {i : Item} (hi : i ∈ s.list) (hitr : i.tr = tr) (hab : i.abortScheduled = false) :
    ({ s.remove tr with fifo := s.fifo ++ [tr] } : State).outstanding.Perm s.outstanding := by
  obtain ⟨l₁, l₂, hl⟩ := List.append_of_mem hi
  have hnodup := h.list_nodup
  rw [hl, List.map_append, List.map_cons] at hnodup
  have hnot := (List.nodup_cons.1 (List.nodup_middle.1 hnodup)).1
  rw [← List.map_append] at hnot
  have hkeep (l : List Item) (hsub : ∀ j ∈ l, j ∈ l₁ ++ l₂) : l.filter (fun j => decide (j.tr ≠ tr)) = l :=
    List.filter_eq_self.2 fun j hj => decide_eq_true fun hc => hnot (List.mem_map.2 ⟨j, hsub j hj, hc.trans hitr.symm⟩)
  have hrem : (s.remove tr).list = l₁ ++ l₂ := by
    change s.list.filter _ = _
    rw [hl, List.filter_append, List.filter_cons_of_neg (by simp [hitr]), hkeep l₁ fun j hj => List.mem_append_left _ hj,
      hkeep l₂ fun j hj => List.mem_append_right _ hj]
  have hlist : ((s.list.filter fun i => !i.abortScheduled).map Item.tr).Perm
      (tr :: ((l₁ ++ l₂).filter fun i => !i.abortScheduled).map Item.tr) := by
    rw [hl, List.filter_append, List.filter_cons_of_pos (by simp [hab]), List.map_append, List.map_cons, hitr, List.filter_append, List.map_append]
    exact List.perm_middle
  simp only [outstanding]
  change (s.dataList.map Prod.fst ++ (((s.remove tr).list.filter fun i => !i.abortScheduled).map Item.tr) ++ (s.fifo ++ [tr]) ++
    s.resp.tr?.toList).Perm _
  rw [hrem]
  refine .append_right _ ?_
  rw [List.append_assoc, List.append_assoc]
  refine .append_left _ ?_
  refine .trans ?_ (hlist.symm.append_right _)
  rw [← List.append_assoc]
  exact List.perm_append_singleton _ _

end State

/-! ### A thread at the head of its loop -/

namespace State

/-- A thread whose transaction has left takes the next one, or ends. -/
theorem Inv.pick (hserved : Served s.resetn s.list (pre ++ post)) (hid : ∀ th ∈ pre ++ post, th.transactionID ≠ id)
    (hroom : ∀ th ∈ pre ++ post, ∀ tr, th.pc ≠ .writing tr) (hlists : s.Lists proto) (hth : s.threads = pre ++ ⟨id, pc⟩ :: post) :
    (s.pick pre.length id).Inv proto := by
  unfold State.pick
  split
  · rename_i tr htr
    rw [hth, set_middle]
    refine ⟨hserved.take hid htr, fun th hmem u => ?_, hlists.setTLMOngoing tr _⟩
    rcases mem_middle.1 hmem with rfl | hmem
    · exact Pc.noConfusion
    · exact hroom th hmem u
  · rw [hth, eraseIdx_middle]
    exact ⟨hserved, hroom, ⟨hlists.nodup, hlists.lt, hlists.ack, hlists.high, hlists.low⟩⟩

theorem Inv.move (h : s.Inv proto) (hth : s.threads = pre ++ ⟨id, pc⟩ :: post) {pc' : Pc} (hpc : pc'.tr? = pc.tr?)
    (hwrite : ∀ tr, pc' ≠ .writing tr)
    (hfresh : s.resetn = true → ∀ tr, pc' = .waiting tr ∨ pc' = .delaying tr → ∀ i ∈ s.list, i.tr = tr → i.abortScheduled = false) :
    ({ s with threads := s.threads.set pre.length ⟨id, pc'⟩ } : State).Inv proto := by
  have hserved := h.served
  rw [hth] at hserved
  rw [hth, set_middle]
  refine ⟨hserved.move hpc hfresh, fun th hmem u => ?_, ⟨h.lists.nodup, h.lists.lt, h.lists.ack, h.lists.high, h.lists.low⟩⟩
  rcases mem_middle.1 hmem with rfl | hmem
  · exact hwrite u
  · exact h.room th (hth ▸ mem_middle.2 (.inr hmem)) u

/-- A thread leaves with its transaction, which counts no more. -/
theorem Inv.leave (h : s.Inv proto) (hth : s.threads = pre ++ ⟨id, pc⟩ :: post) (hpc : pc.tr? = some tr) (hr : s.resetn = false) :
    (s.leave pre.length tr).Inv proto := by
  have hserved := h.served
  rw [hth] at hserved
  unfold State.leave
  rw [hth, eraseIdx_middle]
  refine ⟨hserved.leave hpc, fun th hmem u => h.room th (hth ▸ mem_middle.2 (.inr hmem)) u, h.lists.remove (fun hr' => ?_) _⟩
  rw [hr] at hr'
  cases hr'

/-! ### What goes into the list -/

theorem outstanding_enqueue (s : State) (tr : Transaction) : (s.enqueue tr).outstanding.Perm (tr :: s.outstanding) := by
  have hlist : ((s.enqueue tr).list.filter fun i => !i.abortScheduled).map Item.tr =
      (s.list.filter fun i => !i.abortScheduled).map Item.tr ++ [tr] := by
    simp only [enqueue, List.filter_append, List.map_append]
    rfl
  simp only [outstanding, hlist, List.append_assoc, List.singleton_append]
  rw [← List.append_assoc]
  refine List.perm_middle.trans (.cons tr (.of_eq ?_))
  rw [List.append_assoc]
  rfl

/-- A transaction leaves `wrDataList` for the list. -/
theorem Inv.enqueue_data {l : List (Transaction × ℕ)} {beat : ℕ} (h : s.Inv proto) (hr : s.resetn = true)
    (hl : s.dataList.Perm ((tr, beat) :: l)) : ({ s with dataList := l } : State).enqueue tr |>.Inv proto := by
  have hperm : (s.dataList.map Prod.fst).Perm (tr :: l.map Prod.fst) := hl.map Prod.fst
  have hall : (l.map Prod.fst ++ (s.list ++ [({ tr := tr } : Item)]).map Item.tr).Perm (s.dataList.map Prod.fst ++ s.list.map Item.tr) := by
    rw [List.map_append, ← List.append_assoc]
    exact (List.perm_append_singleton _ _).trans (hperm.symm.append_right _)
  have hserved := h.served
  rw [hr] at hserved
  refine ⟨?_, fun th hth u => ?_, ⟨hall.nodup_iff.2 h.lists.nodup, fun t ht => h.lists.lt t (hall.subset ht), h.lists.ack, fun _ => ?_, fun hr' => ?_⟩⟩
  · change Served s.resetn _ _
    rw [hr]
    exact hserved.enqueue tr
  · change th ∈ ite _ _ _ at hth
    split at hth
    · exact h.room th hth u
    · rcases List.mem_append.1 hth with hth | hth
      · exact h.room th hth u
      · rw [List.mem_singleton.1 hth]
        exact Pc.noConfusion
  · refine (h.lists.high hr).perm ((outstanding_enqueue _ tr).trans ?_)
    simp only [outstanding, List.append_assoc]
    exact (hperm.symm.append_right _)
  · change s.resetn = false at hr'
    rw [hr] at hr'
    cases hr'

theorem Inv.drain {l : List (Transaction × ℕ)} (h : ({ s with dataList := l } : State).Inv proto) (hr : s.resetn = true) :
    (drain proto l s).Inv proto := by
  induction l generalizing s with
  | nil => exact h
  | cons e l ih =>
    obtain ⟨tr, beat⟩ := e
    unfold State.drain
    split
    · exact h
    · exact ih (s := s.enqueue tr) (h.enqueue_data hr (.refl _)) hr

theorem Inv.dataPhase (h : s.Inv proto) {wid : BitVec 32} (hs : s.dataPhase proto wid = some s') : s'.Inv proto := by
  unfold State.dataPhase at hs
  split at hs
  · cases hs
  · rename_i wt beat hfind
    split at hs
    · cases hs
    · rename_i hgo
      have hr : s.resetn = true := by
        by_contra hc
        exact hgo (.inl (by simpa using hc))
      split at hs
      · -- the last beat
        obtain ⟨htakes, pre, post, hl, hpre⟩ := List.find?_eq_some_iff_append.1 hfind
        have herase : s.dataList.Perm ((wt, beat) :: s.dataList.eraseP (Channel.takesData proto wid)) := by
          rw [hl, List.eraseP_append_right _ (fun b hb => by simpa using hpre b hb), List.eraseP_cons_of_pos htakes]
          exact List.perm_middle
        have hq := h.enqueue_data hr herase
        obtain rfl := Option.some.inj hs
        split
        · exact Inv.drain hq hr
        · exact hq
      · obtain rfl := Option.some.inj hs
        have hfst : (s.dataList.map fun e => if e.1 = wt then (wt, beat + 1) else e).map Prod.fst = s.dataList.map Prod.fst := by
          rw [List.map_map]
          refine List.map_congr_left fun e _ => ?_
          simp only [Function.comp_apply]
          split
          · rename_i heq
            exact heq.symm
          · rfl
        refine ⟨h.served, h.room, ⟨?_, ?_, h.lists.ack, fun _ => ?_, fun hr' => ?_⟩⟩
        · change (_ ++ s.list.map Item.tr).Nodup
          rw [hfst]
          exact h.lists.nodup
        · change ∀ t ∈ _ ++ s.list.map Item.tr, t.serial < s.next
          rw [hfst]
          exact h.lists.lt
        · refine (h.lists.high hr).perm (.of_eq ?_)
          simp only [outstanding, hfst]
        · rw [hr] at hr'
          cases hr'

theorem Inv.addressPhase (h : s.Inv proto) {p : AddressPhase} (hs : s.addressPhase proto dir p = some s') : s'.Inv proto := by
  simp only [State.addressPhase] at hs
  split at hs
  · cases hs
  · rename_i hgo
    have hr : s.resetn = true := by
      by_contra hc
      exact hgo (by simp [hc])
    have hready : s.assertReady proto = true := by
      by_contra hc
      exact hgo (by simp [hc])
    have hserial : (Transaction.ofPhase proto dir s.next p).serial = s.next := by cases dir <;> rfl
    generalize Transaction.ofPhase proto dir s.next p = tr at hs hserial
    obtain ⟨hlt, hbars⟩ := ((h.lists.high hr).ready).1 hready
    have hcounts := (h.lists.high hr).cons tr hlt hbars
    have hnew : tr ∉ s.dataList.map Prod.fst ++ s.list.map Item.tr := fun hc => by
      have := h.lists.lt tr hc
      omega
    -- the transaction in `wrDataList`, from where it may go on at once
    have hpush : ({ s with
        next := s.next + 1
        numTransactions := s.numTransactions + 1
        numBarriers := if counted proto tr = true then s.numBarriers + 1 else s.numBarriers
        dataList := s.dataList ++ [(tr, 1)] } : State).Inv proto := by
      have hall : ((s.dataList ++ [(tr, 1)]).map Prod.fst ++ s.list.map Item.tr).Perm (tr :: (s.dataList.map Prod.fst ++ s.list.map Item.tr)) := by
        rw [List.map_append, List.append_assoc]
        exact List.perm_middle
      refine ⟨h.served, h.room, ⟨hall.nodup_iff.2 (List.nodup_cons.2 ⟨hnew, h.lists.nodup⟩), fun t ht => ?_, h.lists.ack, fun _ => ?_, fun hr' => ?_⟩⟩
      · change t.serial < s.next + 1
        rcases List.mem_cons.1 (hall.subset ht) with rfl | ht
        · omega
        · exact Nat.lt_succ_of_lt (h.lists.lt t ht)
      · refine hcounts.perm ?_
        simp only [outstanding, List.map_append, List.append_assoc]
        exact List.perm_middle
      · change s.resetn = false at hr'
        rw [hr] at hr'
        cases hr'
    cases dir with
    | read =>
      obtain rfl := Option.some.inj hs
      exact hpush.enqueue_data hr (List.perm_append_singleton _ _)
    | write =>
      simp only at hs
      split at hs
      · obtain rfl := Option.some.inj hs
        exact hpush.enqueue_data hr (List.perm_append_singleton _ _)
      · obtain rfl := Option.some.inj hs
        exact hpush

/-! ### The fifo and the response -/

/-- Outside of ACE, where no barriers come on top of the limit, a transaction finds room in the fifo. -/
theorem Lists.fifo_room (h : s.Lists proto) (hr : s.resetn = true) {i : Item} (hi : i ∈ s.list) (hab : i.abortScheduled = false)
    (hok : proto = .ace → s.fifo.length < fifoSize) : s.fifo.length < fifoSize := by
  by_cases hp : proto = .ace
  · exact hok hp
  · have hcounts := h.high hr
    have hle := hcounts.le
    have hlen := length_eq_counts proto s.outstanding
    rw [countP_counted hp] at hlen
    have hmem : i ∈ s.list.filter fun i => !i.abortScheduled := List.mem_filter.2 ⟨hi, by simp [hab]⟩
    have hpos := List.length_pos_of_mem hmem
    simp only [outstanding, List.length_append, List.length_map] at hlen
    simp only [maxTransactions] at hle
    simp only [fifoSize]
    rw [outstanding] at hle
    omega

end State

/-! ### The steps -/

namespace State

theorem respBarriers_eq_zero (h : s.resp.tr? = none) : s.respBarriers proto = 0 := by
  unfold respBarriers
  cases hr : s.resp with
  | idle => rfl
  | held => rfl
  | snoop tr => rfl
  | handshake tr | ack tr =>
    rw [hr] at h
    cases h

theorem Inv.done (h : s.Inv proto) (hr : s.resetn = true) (hresp : s.resp.tr? = some tr) : (s.done proto tr).Inv proto := by
  refine ⟨h.served, h.room, ⟨h.lists.nodup, h.lists.lt, fun _ => nofun, fun _ => ?_, fun hr' => ?_⟩⟩
  · have hperm : (tr :: (s.done proto tr).outstanding).Perm s.outstanding := by
      simp only [outstanding, hresp]
      exact (List.perm_append_singleton tr _).symm.trans (.of_eq (by simp [State.done, Resp.tr?]))
    exact ((h.lists.high hr).perm hperm).uncons
  · change s.resetn = false at hr'
    rw [hr] at hr'
    cases hr'

/-- The response thread goes on with the same transaction. -/
theorem Inv.resp (h : s.Inv proto) {resp : Resp} (htr : resp.tr? = s.resp.tr?) (hack : ∀ tr, resp = .ack tr → proto = .ace)
    (hlow : s.resetn = false → ({ s with resp := resp } : State).respBarriers proto = s.respBarriers proto ∧
      ∀ tr, resp = .snoop tr → counted proto tr = false) : ({ s with resp := resp } : State).Inv proto := by
  refine ⟨h.served, h.room, ⟨h.lists.nodup, h.lists.lt, hack, fun hr => ?_, fun hr => ?_⟩⟩
  · refine (h.lists.high hr).perm (.of_eq ?_)
    simp only [outstanding, htr]
  · obtain ⟨hnum, hbars, hdata, hfifo, hlist, -⟩ := h.lists.low hr
    obtain ⟨heq, hsnoop⟩ := hlow hr
    exact ⟨hnum, heq ▸ hbars, hdata, hfifo, hlist, hsnoop⟩

/-- The counted barriers of an asserted reset are being answered. -/
theorem Lists.snoop_of_reset (h : s.Lists proto) (hr : s.resetn = true) (hok : StepOk proto s .reset) (hresp : s.resp = .snoop tr) :
    counted proto tr = false := by
  by_contra hc
  have hcounted : counted proto tr = true := by simpa using hc
  have hp : proto = .ace := by
    by_contra hp
    rw [counted_eq_false hp] at hcounted
    cases hcounted
  have hbars : s.numBarriers.toNat = 0 := by
    rw [hok hp]
    simp only [respBarriers, hresp]
    rfl
  have hmem : tr ∈ s.outstanding := List.mem_append_right _ (by simp [hresp, Resp.tr?])
  have hpos := List.countP_pos_iff.2 ⟨tr, hmem, hcounted⟩
  have hnat := (h.high hr).toNat.2.1
  omega

theorem Inv.reset (h : s.Inv proto) (hr : s.resetn = true) (hok : StepOk proto s .reset) :
    ({ s with resetn := false, dataList := [], list := tlmListClear s.list, fifo := [], numTransactions := 0 } : State).Inv proto := by
  have htr : ((tlmListClear s.list).map Item.tr).Sublist (s.list.map Item.tr) := by
    have heq : (tlmListClear s.list).map Item.tr = (s.list.filter Item.tlmOngoing).map Item.tr := by
      simp only [tlmListClear, List.map_map]
      rfl
    rw [heq]
    exact List.filter_sublist.map _
  have hserved := h.served
  refine ⟨hserved.clear, h.room, ⟨h.lists.list_nodup.sublist htr, fun t ht => ?_, h.lists.ack, nofun, fun _ => ?_⟩⟩
  · exact h.lists.lt t (List.mem_append_right _ (htr.subset ht))
  · refine ⟨rfl, ?_, rfl, rfl, fun j hj => ?_, fun tr hresp => h.lists.snoop_of_reset hr hok hresp⟩
    · by_cases hp : proto = .ace
      · exact hok hp
      · have hz : s.respBarriers proto = 0 := by
          unfold respBarriers
          split <;> simp [counted_eq_false hp]
        change s.numBarriers = BitVec.ofNat 32 (s.respBarriers proto)
        rw [(h.lists.high hr).bars, countP_counted hp, hz]
    · obtain ⟨i, hi, rfl⟩ := List.mem_map.1 hj
      exact ⟨(List.mem_filter.1 hi).2, rfl⟩

/-- When the threads have seen the reset, all that is left are calls of the target. -/
theorem Inv.calling (h : s.Inv proto) (hset : s.settled = true) : (∀ th ∈ s.threads, ∃ tr, th.pc = .calling tr) ∧ s.resp.tr? = none := by
  rw [settled, Bool.and_eq_true, List.all_eq_true, Option.isNone_iff_eq_none] at hset
  refine ⟨fun th hth => ?_, hset.2⟩
  have hpc := hset.1 th hth
  have hroom := h.room th hth
  cases hp : th.pc with
  | calling tr => exact ⟨tr, rfl⟩
  | writing tr => exact absurd hp (hroom tr)
  | start | waiting tr | delaying tr =>
    rw [hp] at hpc
    cases hpc

theorem Lists.outstanding_low (h : s.Lists proto) (hr : s.resetn = false) : s.outstanding = s.resp.tr?.toList := by
  obtain ⟨-, -, hdata, hfifo, hlist, -⟩ := h.low hr
  have hfilter : s.list.filter (fun i => !i.abortScheduled) = [] := List.filter_eq_nil_iff.2 fun i hi => by simp [(hlist i hi).2]
  simp only [outstanding, hdata, hfifo, hfilter, List.map_nil, List.nil_append]

theorem Inv.release (h : s.Inv proto) (hr : s.resetn = false) (hset : s.settled = true) :
    ({ s with resetn := true, resp := .idle } : State).Inv proto := by
  obtain ⟨hcall, hresp⟩ := h.calling hset
  obtain ⟨hnum, hbars, -, -, -, -⟩ := h.lists.low hr
  have hout : ({ s with resetn := true, resp := .idle } : State).outstanding = [] := by
    have hlow := h.lists.outstanding_low hr
    rw [hresp] at hlow
    simp only [outstanding, hresp] at hlow ⊢
    exact hlow
  have hserved := h.served
  rw [hr] at hserved
  refine ⟨hserved.release hcall, h.room, ⟨h.lists.nodup, h.lists.lt, fun _ => nofun, fun _ => ?_, nofun⟩⟩
  rw [hout]
  refine ⟨hnum, ?_, Nat.zero_le _, Nat.zero_le _⟩
  exact hbars.trans (by rw [respBarriers_eq_zero hresp]; rfl)

theorem Inv.abortResp (h : s.Inv proto) (hr : s.resetn = false) (hs : step proto dir s .abortResp = some s') : s'.Inv proto := by
  obtain ⟨hnum, hbars, hdata, hfifo, hlist, hsnoop⟩ := h.lists.low hr
  have hkeep (resp : Resp) (bars : BitVec 32) (hack : ∀ tr, resp = .ack tr → proto = .ace) (hno : ∀ tr, resp ≠ .snoop tr)
      (hb : bars = BitVec.ofNat 32 (({ s with resp := resp } : State).respBarriers proto)) :
      ({ s with resp := resp, numBarriers := bars } : State).Inv proto := by
    refine ⟨h.served, h.room, ⟨h.lists.nodup, h.lists.lt, hack, fun hr' => ?_, fun _ => ?_⟩⟩
    · change s.resetn = true at hr'
      rw [hr] at hr'
      cases hr'
    · exact ⟨hnum, hb, hdata, hfifo, hlist, fun tr hc => absurd hc (hno tr)⟩
  simp only [step, hr, Bool.false_eq_true, if_false] at hs
  split at hs
  · rename_i tr hresp
    obtain rfl := Option.some.inj hs
    rw [← hr]
    exact hkeep .held s.numBarriers (fun _ => nofun) (fun _ => nofun) (hbars.trans (by simp [respBarriers, hresp]))
  · rename_i tr hresp
    obtain rfl := Option.some.inj hs
    rw [← hr]
    by_cases hp : proto = .ace
    · rw [if_pos hp]
      exact hkeep (.ack tr) s.numBarriers (fun _ _ => hp) (fun _ => nofun) (hbars.trans (by simp [respBarriers, hresp]))
    · rw [if_neg hp]
      exact hkeep .held s.numBarriers (fun _ => nofun) (fun _ => nofun) (hbars.trans (by simp [respBarriers, hresp, counted_eq_false hp]))
  · rename_i tr hresp
    obtain rfl := Option.some.inj hs
    rw [← hr]
    refine hkeep .held _ (fun _ => nofun) (fun _ => nofun) ?_
    rw [hbars]
    simp only [respBarriers, hresp]
    split <;> rfl
  · cases hs
  · cases hs

theorem Inv.step (h : s.Inv proto) {a : Action} (hok : StepOk proto s a) (hs : s.step proto dir a = some s') : s'.Inv proto := by
  have hids := h.served.ids
  have hrest {pre post : List Thread} {id : BitVec 32} {pc : Pc} (hth : s.threads = pre ++ ⟨id, pc⟩ :: post) :
      (∀ th ∈ pre ++ post, th.transactionID ≠ id) ∧ ∀ th ∈ pre ++ post, ∀ tr, th.pc ≠ .writing tr :=
    ⟨fun th hmem => not_mem_ids (hth ▸ hids) hmem, fun th hmem => h.room th (hth ▸ mem_middle.2 (.inr hmem))⟩
  cases a with
  | address p => exact h.addressPhase hs
  | data wid =>
    simp only [State.step] at hs
    split at hs
    · exact h.dataPhase hs
    · cases hs
  | start k =>
    simp only [State.step] at hs
    split at hs
    · rename_i id hk
      obtain rfl := Option.some.inj hs
      obtain ⟨pre, post, hth, rfl⟩ := exists_append_of_getElem? hk
      have hserved := h.served
      rw [hth] at hserved
      exact Inv.pick (hserved.drop rfl) (hrest hth).1 (hrest hth).2 h.lists hth
    · cases hs
  | issue k =>
    simp only [State.step] at hs
    split at hs
    · rename_i id tr hk
      split at hs
      · cases hs
      · obtain rfl := Option.some.inj hs
        obtain ⟨pre, post, hth, rfl⟩ := exists_append_of_getElem? hk
        exact h.move hth rfl (fun _ => nofun) fun _ u hu => by rcases hu with hu | hu <;> cases hu
    · cases hs
  | ret k =>
    simp only [State.step] at hs
    split at hs
    · rename_i id tr hk
      obtain ⟨pre, post, hth, rfl⟩ := exists_append_of_getElem? hk
      have hserved := h.served
      rw [hth] at hserved
      obtain ⟨-, i, hi, hitr, -⟩ := hserved.holds ⟨id, .calling tr⟩ (mem_middle.2 (.inl rfl)) tr rfl
      split at hs
      · rename_i hr
        obtain rfl := Option.some.inj hs
        exact h.leave hth rfl hr
      · rename_i hr
        split at hs
        · -- it was under way at a reset
          rename_i hab
          obtain rfl := Option.some.inj hs
          obtain ⟨j, hj, hj'⟩ := List.any_eq_true.1 hab
          rw [Bool.and_eq_true, decide_eq_true_eq] at hj'
          have hall : ∀ u ∈ s.list, u.tr = tr → u.abortScheduled = true :=
            fun u hu hutr => h.lists.item_inj hu hj (hutr.trans hj'.1.symm) ▸ hj'.2
          exact Inv.pick (s := s.remove tr) (hserved.leave rfl) (hrest hth).1 (hrest hth).2 (h.lists.remove (fun _ => hall) s.threads) hth
        · rename_i hab
          obtain rfl := Option.some.inj hs
          refine h.move hth rfl (fun _ => nofun) fun _ u hu v hv hvu => ?_
          have hut : tr = u := by
            rcases hu with hu | hu
            · cases hu
            · exact Pc.delaying.inj hu
          by_contra hc
          exact hab (List.any_eq_true.2 ⟨v, hv, by simp only [hut, hvu, decide_true, Bool.true_and]; simpa using hc⟩)
    · cases hs
  | delayed k =>
    simp only [State.step] at hs
    split at hs
    · rename_i id tr hk
      obtain ⟨pre, post, hth, rfl⟩ := exists_append_of_getElem? hk
      have hserved := h.served
      rw [hth] at hserved
      obtain ⟨-, i, hi, hitr, -⟩ := hserved.holds ⟨id, .delaying tr⟩ (mem_middle.2 (.inl rfl)) tr rfl
      split at hs
      · cases hs
      · rename_i hr
        have hr' : s.resetn = true := by simpa using hr
        have hab : i.abortScheduled = false := hserved.fresh hr' ⟨id, .delaying tr⟩ (mem_middle.2 (.inl rfl)) tr (.inr rfl) i hi hitr
        rw [if_pos (h.lists.fifo_room hr' hi hab hok)] at hs
        obtain rfl := Option.some.inj hs
        have hsub : List.Sublist (s.dataList.map Prod.fst ++ (s.remove tr).list.map Item.tr) (s.dataList.map Prod.fst ++ s.list.map Item.tr) :=
          (List.Sublist.refl _).append (List.filter_sublist.map _)
        refine Inv.pick (s := { s.remove tr with fifo := s.fifo ++ [tr] }) (hserved.leave rfl) (hrest hth).1 (hrest hth).2
          ⟨h.lists.nodup.sublist hsub, fun t ht => h.lists.lt t (hsub.subset ht), h.lists.ack, fun _ => ?_, fun hc => absurd hc hr⟩ hth
        exact (h.lists.high hr').perm (outstanding_toFifo h.lists hi hitr hab)
    · cases hs
  | written k =>
    simp only [State.step] at hs
    split at hs
    · rename_i id tr hk
      exact absurd rfl (h.room _ (List.mem_of_getElem? hk) tr)
    · cases hs
  | respond =>
    simp only [State.step] at hs
    split at hs
    · rename_i tr rest hresp hfifo
      obtain rfl := Option.some.inj hs
      have hnew : (if proto = .ace ∧ dir = .read then Resp.snoop tr else Resp.handshake tr).tr? = some tr := by split <;> rfl
      have hr : s.resetn = true := by
        by_contra hc
        rw [(h.lists.low (by simpa using hc)).2.2.2.1] at hfifo
        cases hfifo
      refine ⟨h.served, h.room, ⟨h.lists.nodup, h.lists.lt, fun u hu => ?_, fun _ => ?_, fun hc => ?_⟩⟩
      · change (if proto = .ace ∧ dir = .read then Resp.snoop tr else Resp.handshake tr) = .ack u at hu
        split at hu <;> cases hu
      · refine (h.lists.high hr).perm ?_
        simp only [outstanding, hnew, hfifo, hresp, Option.toList_some, List.append_assoc]
        exact .append_left _ (.append_left _ ((List.perm_append_singleton _ _).trans (.of_eq (List.append_nil _).symm)))
      · change s.resetn = false at hc
        rw [hr] at hc
        cases hc
    · cases hs
  | snooped =>
    simp only [State.step] at hs
    split at hs
    · rename_i tr hresp
      obtain rfl := Option.some.inj hs
      refine h.resp (by rw [hresp]; rfl) (fun _ => nofun) fun hr => ⟨?_, fun _ => nofun⟩
      simp only [respBarriers, hresp, (h.lists.low hr).2.2.2.2.2 tr hresp, Bool.false_eq_true, if_false]
    · cases hs
  | answered =>
    simp only [State.step] at hs
    split at hs
    · rename_i tr hresp
      split at hs
      · cases hs
      · rename_i hr
        split at hs
        · rename_i hp
          obtain rfl := Option.some.inj hs
          exact h.resp (by rw [hresp]; rfl) (fun _ _ => hp) fun hc => absurd hc hr
        · obtain rfl := Option.some.inj hs
          exact h.done (by simpa using hr) (by rw [hresp]; rfl)
    · cases hs
  | acked =>
    simp only [State.step] at hs
    split at hs
    · rename_i tr hresp
      split at hs
      · cases hs
      · rename_i hr
        obtain rfl := Option.some.inj hs
        exact h.done (by simpa using hr) (by rw [hresp]; rfl)
    · cases hs
  | reset =>
    simp only [State.step] at hs
    split at hs
    · cases hs
    · rename_i hr
      obtain rfl := Option.some.inj hs
      exact h.reset (by simpa using hr) hok
  | abort k =>
    simp only [State.step] at hs
    split at hs
    · rename_i id tr hk
      split at hs
      · rename_i hr
        obtain rfl := Option.some.inj hs
        obtain ⟨pre, post, hth, rfl⟩ := exists_append_of_getElem? hk
        exact h.leave hth rfl hr
      · cases hs
    · rename_i id tr hk
      split at hs
      · rename_i hr
        obtain rfl := Option.some.inj hs
        obtain ⟨pre, post, hth, rfl⟩ := exists_append_of_getElem? hk
        exact h.leave hth rfl hr
      · cases hs
    · cases hs
  | abortResp =>
    have hr : s.resetn = false := by
      by_contra hc
      simp only [State.step] at hs
      rw [if_pos (by simpa using hc)] at hs
      cases hs
    exact h.abortResp hr hs
  | release =>
    simp only [State.step] at hs
    split at hs
    · rename_i hc
      obtain rfl := Option.some.inj hs
      exact h.release hc.1 hc.2
    · cases hs

/-! ### Runs -/

theorem inv_of_reach (h : Reach (State.step proto dir) (StepOk proto) {} s) : s.Inv proto :=
  h.invariant (inv_init proto) fun hi hok hs => hi.step hok hs

theorem list_pick (s : State) (k : ℕ) (id : BitVec 32) : (s.pick k id).list.map Item.tr = s.list.map Item.tr := by
  unfold State.pick
  split
  · simp only [setTLMOngoing, List.map_map]
    refine List.map_congr_left fun i _ => ?_
    simp only [Function.comp_apply]
    split <;> rfl
  · rfl

theorem outstanding_pick (s : State) (k : ℕ) (id : BitVec 32) : (s.pick k id).outstanding = s.outstanding := by
  unfold State.pick
  split
  · exact outstanding_setTLMOngoing s _
  · rfl

/-- What the target has at the release of a reset is to be aborted. -/
theorem Inv.calls (h : s.Inv proto) (hr : s.resetn = false) (hset : s.settled = true) {i : Item} (hi : i ∈ s.list) :
    i.abortScheduled = true ∧ ∃ th ∈ s.threads, th.pc = .calling i.tr := by
  obtain ⟨hon, hab⟩ := (h.lists.low hr).2.2.2.2.1 i hi
  obtain ⟨th, hth, htr⟩ := h.served.ongoing i hi hon
  obtain ⟨tr, hpc⟩ := (h.calling hset).1 th hth
  rw [hpc] at htr
  obtain rfl : tr = i.tr := Option.some.inj htr
  exact ⟨hab, th, hth, hpc⟩

end State

end LibSystemCTLM.Axi.Reset
