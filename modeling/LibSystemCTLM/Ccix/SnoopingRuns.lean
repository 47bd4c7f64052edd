import LibSystemCTLM.Ccix.Snooping
import Mathlib.Data.List.Count
import Mathlib.Data.List.Perm.Basic

/-!
# What the snoops of a home are worth

A request should be snooped at every remote agent other than its requester whose filter has the line
(`expected`), go on when each of these snoops has been answered, and find the answers attributed to it.
The code does so when no more than one agent of a port has the line (`snooping_of_run`): the snoops of a
port share one transaction ID, the first response of a port completes it, and the requester is left out
only when a port is chosen, and not when its agents are. The filter of the agent that answers stays as
it is, as that of the requester is updated (`updateSnoopFilter_of_ne`).
-/

namespace LibSystemCTLM.Ccix

open Foundation

/-! ### What is asked of a home -/

namespace Home

variable (s s' : Home)

/-- The agents of a port that have the line and are not the requester. -/
def targets (r : ReqTxn) (p : ℕ) : List (ℕ × BitVec 16) :=
  ((s.agents p).filter fun a => decide (a.id ≠ r.srcID) && a.snpFilter.containsAllocated r.line).map fun a => (p, a.id)

/-- The agents to snoop. -/
def expected (c : Cur) : List (ℕ × BitVec 16) :=
  if c.snooped = true then (List.range s.ccix.length).flatMap (s.targets c.req) else []

/-- A response that comes will be taken for the request whose snoop it answers, which has not gone on. -/
def Attributed : Prop := ∀ w ∈ s.snps, ∃ c ∈ s.cur, c.continued = false ∧ w.n = c.n ∧ s.ongoingTxn w.txnID = some c.n

/-- A response is waited for only if it will come, and a snoop is sent only to whom it should be. -/
def Waits : Prop := ∀ c ∈ s.cur, c.continued = false →
  (∀ t ∈ c.trackers, t.done = false → ∃ w ∈ s.snps, w.txnID = t.txnID) ∧ c.sent <+: s.expected c

/-- A request that goes on has been snooped at all agents it should be, and all have answered. -/
def Continues : Prop := ∀ c' ∈ s'.cur, c'.continued = true → (∀ c ∈ s.cur, c.continued = false) → c'.sent = s'.expected c' ∧ s'.snps = []

/-- The filter of one agent of a port is updated. -/
def updated (p : ℕ) (id : BitVec 16) (f : SnoopFilter → SnoopFilter) : List PortCCIX :=
  s.ccix.modify p fun q => ⟨q.agents.map fun a => if a.id = id then { a with snpFilter := f a.snpFilter } else a⟩

/-- A response updates the filter of the agent that sent it. -/
def Updates : Act → Prop
  | .respond i resp => ∀ w ∈ s.snps[i]?, ∀ p ∈ w.port, ∀ c ∈ s.cur, s'.ccix = s.updated p w.id (SnoopFilter.updateResp c.req.line · resp)
  | _ => True

/-- A request comes to the home with the `SnpAttr` it was issued with, and at most one agent of a port
that needs a snoop has its line. A remote agent that answers keeps its line. The last response comes when
all snoops have been sent. The next ID was not used for the same request before. -/
def Fair : Act → Prop
  | .request r remote verdict => ∀ h ∈ incoming r remote, (isSnoopingReq r.opcode = true → h.snpAttr = r.snpAttr) ∧
      (h.isSnooped verdict = true → ∀ p ∈ s.ccix, p.needsSnoop h = true →
        (p.agents.filter fun a => a.snpFilter.containsAllocated h.line).length = 1)
  | .resume => ∀ id ∈ s.ids.head?, ∀ c ∈ s.cur, ∀ t ∈ c.trackers, t.txnID ≠ id
  | .respond i resp => ∀ w ∈ s.snps[i]?, (w.port.isSome = true → SnoopFilter.isInvalid resp = false) ∧
      (s.thread.isSome = true → ∃ c ∈ s.cur, ∃ t ∈ c.trackers, t.txnID ≠ w.txnID ∧ t.done = false)
  | _ => True

instance : (a : Act) → Decidable (s.Fair a)
  | .request _ _ _ => by unfold Fair; infer_instance
  | .resume => by unfold Fair; infer_instance
  | .respond _ _ => by unfold Fair; infer_instance
  | .updateRequester | .requestDone | .take _ | .giveBack _ => isTrue trivial

end Home

/-! ### Filters and ports -/

theorem getCHISnpAttr_write {opcode : BitVec 8} (h : isWrite opcode = true ∨ isAtomic opcode = true) : getCHISnpAttr opcode = false := by
  rcases h with h | h
  · simp only [isWrite, decide_eq_true_eq, List.mem_cons, List.not_mem_nil, or_false] at h
    rcases h with rfl | rfl | rfl | rfl | rfl | rfl | rfl | rfl | rfl | rfl <;> rfl
  · -- the atomics lie above all of them
    refine decide_eq_false fun hmem => ?_
    simp only [List.mem_cons, List.not_mem_nil, or_false] at hmem
    rcases hmem with rfl | rfl | rfl | rfl | rfl | rfl | rfl | rfl | rfl | rfl | rfl | rfl | rfl | rfl | rfl | rfl <;>
      exact absurd h Bool.false_ne_true

theorem SnoopFilter.updateResp_eq {a : Address} {f : SnoopFilter} {resp : BitVec 8} (h : isInvalid resp = false) : updateResp a f resp = f :=
  if_neg (h ▸ Bool.false_ne_true)

theorem map_modify_of_eq {α β : Type*} {f : α → α} {g : α → β} (h : ∀ x, g (f x) = g x) (l : List α) (i : ℕ) : (l.modify i f).map g = l.map g := by
  induction l generalizing i with
  | nil => cases i <;> rfl
  | cons x l ih =>
    cases i with
    | zero => simp only [List.modify_zero_cons, List.map_cons, h]
    | succ i => simp only [List.modify_succ_cons, List.map_cons, ih]

/-- The one element of a list with a property, and what a search finds. -/
theorem find_of_filter {α : Type*} {P : α → Bool} {l : List α} {a : α} (h : l.filter P = [a]) :
    ∃ i, (l.zipIdx.find? fun x => P x.1) = some (a, i) ∧ ((l.zipIdx.drop (i + 1)).find? fun x => P x.1) = none := by
  obtain ⟨l₁, l₂, rfl, h₁, ha, h₂⟩ := List.filter_eq_cons_iff.1 h
  have hsplit : (l₁ ++ a :: l₂).zipIdx = l₁.zipIdx ++ (a, l₁.length) :: l₂.zipIdx (l₁.length + 1) := by
    rw [List.zipIdx_append, List.zipIdx_cons, Nat.zero_add]
  have hnone : (l₁.zipIdx.find? fun x => P x.1) = none := by
    rw [List.find?_eq_none]
    exact fun x hx => h₁ x.1 (List.fst_mem_of_mem_zipIdx hx)
  refine ⟨l₁.length, ?_, ?_⟩
  · have hhead : (((a, l₁.length) :: l₂.zipIdx (l₁.length + 1)).find? fun x => P x.1) = some (a, l₁.length) := List.find?_cons_of_pos ha
    rw [hsplit, List.find?_append, hnone, hhead]
    rfl
  · have hdrop : (l₁ ++ a :: l₂).zipIdx.drop (l₁.length + 1) = l₂.zipIdx (l₁.length + 1) := by
      rw [hsplit, ← List.drop_drop, List.drop_left' List.length_zipIdx]
      rfl
    rw [hdrop, List.find?_eq_none]
    exact fun x hx => List.filter_eq_nil_iff.1 h₂ x.1 (List.fst_mem_of_mem_zipIdx hx)

/-- The first element with a key, in a list with one for each key. -/
theorem modify_findIdx {α β : Type*} [DecidableEq β] (key : α → β) {k : β} {l : List α} (f : α → α) (h : (l.map key).Nodup) :
    l.modify (l.findIdx fun t => decide (key t = k)) f = l.map fun t => if key t = k then f t else t := by
  induction l with
  | nil => rfl
  | cons t l ih =>
    rw [List.map_cons, List.nodup_cons] at h
    rw [List.findIdx_cons, List.map_cons]
    by_cases ht : key t = k
    · have hrest : (l.map fun t => if key t = k then f t else t) = l := by
        refine (List.map_congr_left fun u hu => if_neg ?_).trans (List.map_id l)
        rintro rfl
        exact h.1 (ht ▸ List.mem_map_of_mem hu)
      simp only [ht, decide_true, cond_true, if_true, List.modify_zero_cons, hrest]
    · simp only [ht, decide_false, cond_false, if_false, List.modify_succ_cons, ih h.2]

theorem mem_eraseIdx_of_key {α β : Type*} {key : α → β} {l : List α} {i : ℕ} {a b : α} (h : (l.map key).Nodup) (hi : l[i]? = some a) :
    b ∈ l.eraseIdx i ↔ b ∈ l ∧ key b ≠ key a := by
  obtain ⟨hlt, rfl⟩ := List.getElem?_eq_some_iff.1 hi
  have hperm := List.getElem_cons_eraseIdx_perm hlt
  have hnodup := (hperm.map key).nodup_iff.2 h
  rw [List.map_cons, List.nodup_cons] at hnodup
  rw [← hperm.mem_iff, List.mem_cons]
  constructor
  · exact fun hb => ⟨.inr hb, fun heq => hnodup.1 (heq ▸ List.mem_map_of_mem hb)⟩
  · rintro ⟨rfl | hb, hne⟩
    · exact absurd rfl hne
    · exact hb

namespace PortCCIX

variable {p : PortCCIX} {r : ReqTxn}

theorem updateSnoopFilter_id {f : SnoopFilter → SnoopFilter} (hf : ∀ x, f x = x) (p : PortCCIX) (r : ReqTxn) : p.updateSnoopFilter r f = p := by
  have hmap : (p.agents.map fun a => if a.id = r.srcID then { a with snpFilter := f a.snpFilter } else a) = p.agents := by
    refine (List.map_congr_left fun a _ => ?_).trans (List.map_id _)
    split
    · rw [hf]
      rfl
    · rfl
  rw [updateSnoopFilter, hmap]

/-- The filter of an agent that is not the requester stays as it is, whoever answers. -/
theorem updateSnoopFilter_of_ne {f : SnoopFilter → SnoopFilter} {a : CCIXAgent} (ha : a ∈ p.agents) (hne : a.id ≠ r.srcID) :
    a ∈ (p.updateSnoopFilter r f).agents :=
  List.mem_map.2 ⟨a, ha, if_neg hne⟩

end PortCCIX

namespace Home

variable {s s' : Home} {c c' : Cur} {p : ℕ} {r : ReqTxn}

/-- One agent of the port has the line, and it is not the requester. -/
structure Single (s : Home) (r : ReqTxn) (p : ℕ) (a : CCIXAgent) (next : ℕ) : Prop where
  first : s.nextAgent p 0 r.line = some (a, next)
  rest : s.nextAgent p next r.line = none
  targets : s.targets r p = [(p, a.id)]

theorem targets_of_not_needsSnoop (h : ∀ q ∈ s.ccix[p]?, q.needsSnoop r = false) : s.targets r p = [] := by
  rw [targets, agents]
  cases hp : s.ccix[p]? with
  | none => rfl
  | some q =>
    have hq := h q hp
    rw [PortCCIX.needsSnoop, List.any_eq_false] at hq
    have hnone : (q.agents.filter fun a => decide (a.id ≠ r.srcID) && a.snpFilter.containsAllocated r.line) = [] := by
      refine List.filter_eq_nil_iff.2 fun a ha => ?_
      simpa only [ReqTxn.getSnpMe, Bool.or_false] using hq a ha
    rw [Option.elim_some, hnone]
    rfl

theorem single_of_needsSnoop {q : PortCCIX} (hp : s.ccix[p]? = some q) (hneeds : q.needsSnoop r = true)
    (hone : (q.agents.filter fun a => a.snpFilter.containsAllocated r.line).length = 1) : ∃ a next, s.Single r p a next := by
  obtain ⟨a, ha⟩ := List.length_eq_one_iff.1 hone
  obtain ⟨i, hfirst, hrest⟩ := find_of_filter ha
  have hagents : s.agents p = q.agents := by rw [agents, hp, Option.elim_some]
  refine ⟨a, i + 1, ?_, ?_, ?_⟩
  · rw [nextAgent, hagents, List.drop_zero, hfirst]
    rfl
  · rw [nextAgent, hagents, hrest]
    rfl
  · obtain ⟨b, hb, hsnoop⟩ := List.any_eq_true.1 hneeds
    rw [Bool.and_eq_true, ReqTxn.getSnpMe, Bool.or_false, decide_eq_true_eq] at hsnoop
    have hmem : b ∈ q.agents.filter fun a => a.snpFilter.containsAllocated r.line := List.mem_filter.2 ⟨hb, hsnoop.2⟩
    rw [ha, List.mem_singleton] at hmem
    subst hmem
    have hfilter : (q.agents.filter fun a => decide (a.id ≠ r.srcID) && a.snpFilter.containsAllocated r.line) = [b] := by
      rw [← List.filter_filter, ha]
      exact List.filter_cons_of_pos (decide_eq_true hsnoop.1)
    rw [targets, hagents, hfilter]
    rfl

/-- The ports that are chosen have all the agents to snoop. -/
theorem flatMap_portsToSnoop : (s.portsToSnoop r).flatMap (s.targets r) = (List.range s.ccix.length).flatMap (s.targets r) := by
  have hsub : ∀ l : List ℕ, (l.filter fun p => s.ccix[p]?.any fun q => q.needsSnoop r).flatMap (s.targets r) = l.flatMap (s.targets r) := by
    intro l
    induction l with
    | nil => rfl
    | cons p l ih =>
      rw [List.filter_cons, List.flatMap_cons]
      split
      · rw [List.flatMap_cons, ih]
      · rename_i hnot
        have hnone : s.targets r p = [] := by
          refine targets_of_not_needsSnoop fun q hq => ?_
          rw [Option.mem_def.1 hq, Option.any_some] at hnot
          exact Bool.eq_false_of_not_eq_true hnot
        rw [ih, hnone, List.nil_append]
  exact hsub _

/-! ### The snoops of a request -/

/-- A request that is snooped: its trackers and the snoops that have not been answered belong together. -/
structure Core (s : Home) (c : Cur) : Prop where
  cur : s.cur = some c
  snooping : c.continued = false
  ids : (s.ids ++ s.held ++ s.snps.map Snp.txnID).Nodup
  trackers : (c.trackers.map Tracker.txnID).Nodup
  ongoing : ∀ w ∈ s.snps, w.n = c.n ∧ s.ongoingTxn w.txnID = some c.n
  tracked : ∀ w ∈ s.snps, ∃ t ∈ c.trackers, t.txnID = w.txnID ∧ t.done = false
  waits : ∀ t ∈ c.trackers, t.done = false → ∃ w ∈ s.snps, w.txnID = t.txnID
  rnf : ∀ w ∈ s.snps, w.port = none → ∃ q ∈ s.rnfs, q.nodeID = w.id

theorem Core.send (h : s.Core c) {id : BitVec 8} {ids : List (BitVec 8)} (hids : s.ids = id :: ids) (hfresh : ∀ t ∈ c.trackers, t.txnID ≠ id)
    {w : Snp} (hid : w.txnID = id) (hn : w.n = c.n) (hrnf : w.port = none → ∃ q ∈ s.rnfs, q.nodeID = w.id)
    {l : List (ℕ × BitVec 16)} {t : Option Thread} :
    Core { s with
        ids := ids, ongoingTxn := Function.update s.ongoingTxn id (some c.n), snps := s.snps ++ [w], thread := t
        cur := some { c with trackers := c.trackers ++ [{ txnID := id }], sent := l } }
      { c with trackers := c.trackers ++ [{ txnID := id }], sent := l } := by
  have hids' := h.ids
  rw [hids] at hids'
  have hused : id ∉ s.snps.map Snp.txnID := by
    intro hmem
    rw [List.cons_append, List.cons_append, List.nodup_cons] at hids'
    exact hids'.1 (List.mem_append_right _ hmem)
  refine ⟨rfl, h.snooping, ?_, ?_, ?_, ?_, ?_, ?_⟩
  · have hperm : (ids ++ s.held ++ (s.snps ++ [w]).map Snp.txnID).Perm (id :: ids ++ s.held ++ s.snps.map Snp.txnID) := by
      rw [List.map_append, List.map_singleton, hid, ← List.append_assoc]
      exact List.perm_append_comm
    exact hperm.nodup_iff.2 hids'
  · rw [List.map_append, List.nodup_append]
    refine ⟨h.trackers, List.nodup_singleton _, fun x hx y hy => ?_⟩
    obtain ⟨t, ht, rfl⟩ := List.mem_map.1 hx
    rw [List.mem_singleton.1 hy]
    exact hfresh t ht
  · intro w' hw'
    rcases List.mem_append.1 hw' with hmem | hmem
    · have hne : w'.txnID ≠ id := fun heq => hused (heq ▸ List.mem_map_of_mem hmem)
      exact ⟨(h.ongoing w' hmem).1, (Function.update_of_ne hne _ _).trans (h.ongoing w' hmem).2⟩
    · rw [List.mem_singleton.1 hmem, hid]
      exact ⟨hn, Function.update_self ..⟩
  · intro w' hw'
    rcases List.mem_append.1 hw' with hmem | hmem
    · obtain ⟨t, ht, htxn⟩ := h.tracked w' hmem
      exact ⟨t, List.mem_append_left _ ht, htxn⟩
    · rw [List.mem_singleton.1 hmem]
      exact ⟨_, List.mem_append_right _ (List.mem_singleton_self _), hid.symm, rfl⟩
  · intro t' ht' hdone
    rcases List.mem_append.1 ht' with hmem | hmem
    · obtain ⟨w', hw', htxn⟩ := h.waits t' hmem hdone
      exact ⟨w', List.mem_append_left _ hw', htxn⟩
    · rw [List.mem_singleton.1 hmem]
      exact ⟨w, List.mem_append_right _ (List.mem_singleton_self _), hid⟩
  · intro w' hw' hport
    rcases List.mem_append.1 hw' with hmem | hmem
    · exact h.rnf w' hmem hport
    · rw [List.mem_singleton.1 hmem] at hport ⊢
      exact hrnf hport

theorem waitForSnpTxn_eq (hc : s.cur = some c) {id : BitVec 8} {ids : List (BitVec 8)} (hids : s.ids = id :: ids) :
    s.waitForSnpTxn = some (id, { s with
      ids := ids, ongoingTxn := Function.update s.ongoingTxn id (some c.n)
      cur := some { c with trackers := c.trackers ++ [{ txnID := id }] } }) := by
  rw [waitForSnpTxn, hc, hids]
  rfl

theorem waitForSnpTxn_nil (hids : s.ids = []) : s.waitForSnpTxn = none := by
  rw [waitForSnpTxn, hids]
  cases s.cur <;> rfl

/-- What the snoops of the RN-Fs leave as it is. -/
structure Frame (s : Home) (c : Cur) (s' : Home) (c' : Cur) : Prop where
  rnfs : s'.rnfs = s.rnfs
  ccix : s'.ccix = s.ccix
  thread : s'.thread = s.thread
  n : c'.n = c.n
  req : c'.req = c.req
  snooped : c'.snooped = c.snooped
  sent : c'.sent = c.sent

theorem Frame.expected (h : Frame s c s' c') : s'.expected c' = s.expected c := by
  have htargets : s'.targets c'.req = s.targets c.req := by
    funext p
    rw [Home.targets, Home.targets, agents, agents, h.ccix, h.req]
  rw [Home.expected, Home.expected, htargets, h.ccix, h.snooped]

/-- A request none of whose snoops has been answered has trackers of other IDs than the free ones. -/
theorem Core.fresh (h : s.Core c) (hundone : ∀ t ∈ c.trackers, t.done = false) {id : BitVec 8} (hid : id ∈ s.ids) :
    ∀ t ∈ c.trackers, t.txnID ≠ id := by
  rintro t ht rfl
  obtain ⟨w, hw, htxn⟩ := h.waits t ht (hundone t ht)
  have hids := h.ids
  rw [List.append_assoc, List.nodup_append] at hids
  exact hids.2.2 _ hid _ (List.mem_append_right _ (List.mem_map_of_mem hw)) htxn.symm

theorem core_of_snoopRNFs {nodes : List PortRNF} (h : s.Core c) (hundone : ∀ t ∈ c.trackers, t.done = false)
    (hnodes : ∀ q ∈ nodes, q ∈ s.rnfs) (hs : nodes.foldlM snoopRNF s = some s') :
    ∃ c', s'.Core c' ∧ (∀ t ∈ c'.trackers, t.done = false) ∧ Frame s c s' c' := by
  induction nodes generalizing s c with
  | nil =>
    cases hs
    exact ⟨c, h, hundone, ⟨rfl, rfl, rfl, rfl, rfl, rfl, rfl⟩⟩
  | cons q nodes ih =>
    rw [List.foldlM_cons] at hs
    obtain ⟨u, hu, hs⟩ := Option.bind_eq_some_iff.1 hs
    rw [snoopRNF, h.cur] at hu
    cases hids : s.ids with
    | nil =>
      rw [waitForSnpTxn_nil hids] at hu
      cases hu
    | cons id ids =>
      rw [waitForSnpTxn_eq h.cur hids] at hu
      cases hu
      have hfresh := h.fresh hundone (hids ▸ List.mem_cons_self)
      have hcore := h.send (t := s.thread) (l := c.sent) hids hfresh (w := ⟨none, q.nodeID, id, c.n⟩) rfl rfl
        fun _ => ⟨q, hnodes q List.mem_cons_self, rfl⟩
      obtain ⟨c', hc', hundone', hframe⟩ := ih hcore (by
        intro t ht
        rcases List.mem_append.1 ht with hmem | hmem
        · exact hundone t hmem
        · rw [List.mem_singleton.1 hmem]) (fun q' hq' => hnodes q' (List.mem_cons_of_mem q hq')) hs
      exact ⟨c', hc', hundone', ⟨hframe.rnfs, hframe.ccix, hframe.thread, hframe.n, hframe.req, hframe.snooped, hframe.sent⟩⟩

/-- The thread has seen all agents of its port that have the line, and the agents of its other ports are
those that have still to be snooped. -/
structure Sending (s : Home) (c : Cur) (t : Thread) : Prop where
  n : t.n = c.n
  line : t.line = c.req.line
  rest : s.nextAgent t.port t.next t.line = none
  single : ∀ p ∈ t.ports, ∃ a next, s.Single c.req p a next
  sent : c.sent ++ t.ports.flatMap (s.targets c.req) = s.expected c

/-- A request that is snooped, and how far its snoops are sent. -/
structure Running (s : Home) (c : Cur) : Prop extends Core s c where
  sending : ∀ t ∈ s.thread, Sending s c t
  sent : s.thread = none → c.sent = s.expected c

/-- The ports that are left are snooped one after the other. -/
theorem running_of_snoopPorts {ports : List ℕ} (h : s.Core c) (hfresh : ∀ id ∈ s.ids.head?, ∀ t ∈ c.trackers, t.txnID ≠ id)
    (hsingle : ∀ p ∈ ports, ∃ a next, s.Single c.req p a next)
    (hsent : c.sent ++ ports.flatMap (s.targets c.req) = s.expected c) (hs : s.snoopPorts c.n c.req.line ports = some s') :
    ∃ c', s'.Running c' := by
  cases ports with
  | nil =>
    cases hs
    rw [List.flatMap_nil, List.append_nil] at hsent
    exact ⟨c, ⟨h.cur, h.snooping, h.ids, h.trackers, h.ongoing, h.tracked, h.waits, h.rnf⟩, fun t ht => absurd ht (Option.not_mem_none t), fun _ => hsent⟩
  | cons p ports =>
    rw [snoopPorts] at hs
    cases hids : s.ids with
    | nil =>
      rw [waitForSnpTxn_nil hids] at hs
      cases hs
    | cons id ids =>
      obtain ⟨a, next, hone⟩ := hsingle p List.mem_cons_self
      rw [waitForSnpTxn_eq h.cur hids] at hs
      simp only [Option.bind_eq_bind, Option.bind_some] at hs
      have hfirst : nextAgent { s with
          ids := ids, ongoingTxn := Function.update s.ongoingTxn id (some c.n)
          cur := some { c with trackers := c.trackers ++ [{ txnID := id }] } } p 0 c.req.line = some (a, next) := hone.first
      rw [hfirst] at hs
      cases hs
      rw [hids] at hfresh
      have hcore := h.send (t := some ⟨c.n, c.req.line, p, id, next, ports⟩) (l := c.sent ++ [(p, a.id)]) hids (hfresh id rfl)
        (w := ⟨some p, a.id, id, c.n⟩) rfl rfl fun hport => by cases hport
      refine ⟨_, hcore, fun t ht => ?_, fun hnone => by cases hnone⟩
      cases ht
      refine ⟨rfl, rfl, hone.rest, fun q hq => ?_, ?_⟩
      · obtain ⟨b, next', hq⟩ := hsingle q (List.mem_cons_of_mem p hq)
        exact ⟨b, next', hq.first, hq.rest, hq.targets⟩
      · rw [List.flatMap_cons, hone.targets, ← List.append_assoc] at hsent
        exact hsent

/-! ### Steps -/

/-- What holds at every state of a run. -/
structure Inv (s : Home) : Prop where
  ids : (s.ids ++ s.held ++ s.snps.map Snp.txnID).Nodup
  running : ∀ c, s.cur = some c → c.continued = false → s.Running c
  idle : (∀ c ∈ s.cur, c.continued = true) → s.snps = [] ∧ s.thread = none

theorem Inv.idle_of_continued (h : s.Inv) (hc : s.cur = some c) (hcont : c.continued = true) : s.snps = [] ∧ s.thread = none := by
  refine h.idle fun c' hc' => ?_
  rw [hc] at hc'
  cases hc'
  exact hcont

/-- What is not idle has a request whose snoops are under way. -/
theorem Inv.exists_running (h : s.Inv) (hbusy : ¬(s.snps = [] ∧ s.thread = none)) : ∃ c, s.cur = some c ∧ c.continued = false := by
  by_contra hnone
  refine hbusy (h.idle fun c hc => ?_)
  by_contra hcont
  exact hnone ⟨c, hc, Bool.eq_false_of_not_eq_true hcont⟩

theorem Running.inv (h : s.Running c) : s.Inv := by
  refine ⟨h.ids, fun c' hc' _ => ?_, fun hidle => ?_⟩
  · rw [h.cur] at hc'
    cases hc'
    exact h
  · exact absurd (hidle c h.cur) (h.snooping ▸ Bool.false_ne_true)

theorem mem_ccix_of_portsToSnoop (hp : p ∈ s.portsToSnoop r) : ∃ q, s.ccix[p]? = some q ∧ q ∈ s.ccix ∧ q.needsSnoop r = true := by
  obtain ⟨hlt, hneeds⟩ := List.mem_filter.1 hp
  have hget := List.getElem?_eq_getElem (List.mem_range.1 hlt)
  rw [hget, Option.any_some] at hneeds
  exact ⟨_, hget, List.getElem_mem _, hneeds⟩

/-- A request that need not be snooped goes on. -/
theorem inv_of_continued (hids : (s.ids ++ s.held ++ s.snps.map Snp.txnID).Nodup) (hidle : s.snps = [] ∧ s.thread = none)
    (hc : ∀ c ∈ s.cur, c.continued = true) : s.Inv :=
  ⟨hids, fun c hcur hcont => absurd (hc c hcur) (hcont ▸ Bool.false_ne_true), fun _ => hidle⟩

theorem opcode_of_incoming {remote : Option (BitVec 8)} {h : ReqTxn} (hin : incoming r remote = some h) : h.opcode = r.opcode := by
  cases remote with
  | none =>
    cases hin
    rfl
  | some resp =>
    obtain ⟨reqOp, hreq, hin⟩ := Option.bind_eq_some_iff.1 hin
    obtain ⟨opcode, hop, hin⟩ := Option.bind_eq_some_iff.1 hin
    cases hin
    exact Option.some.inj (hop.symm.trans (toCHI_of_outgoing hreq))

/-- The ports of `FillPortsToSnoop` are snooped, or else there is nobody to snoop. -/
theorem Inv.processReq {snooped verdict : Bool} (h : s.Inv) (hcur : s.cur = none)
    (hone : r.isSnooped verdict = true → ∀ p ∈ s.ccix, p.needsSnoop r = true →
      (p.agents.filter fun a => a.snpFilter.containsAllocated r.line).length = 1)
    (hsnooped : snooped = r.isSnooped verdict) (hs : s.processReq r snooped verdict = some s') : s'.Inv ∧ s.Continues s' := by
  obtain ⟨hsnps, hthread⟩ := h.idle (by
    rw [hcur]
    exact fun _ => nofun)
  have hids := h.ids
  unfold Home.processReq at hs
  dsimp only at hs
  split at hs
  · rename_i hsome
    obtain ⟨hyes, -⟩ := hsome
    obtain ⟨u, hnodes, hports⟩ := Option.bind_eq_some_iff.1 hs
    have hstart : Core { s with n := s.n + 1, cur := some { n := s.n, req := r, snooped := snooped } } { n := s.n, req := r, snooped := snooped } := by
      refine ⟨rfl, rfl, hids, List.nodup_nil, ?_, ?_, fun _ => nofun, ?_⟩ <;>
      · intro w hw
        rw [hsnps] at hw
        exact absurd hw List.not_mem_nil
    obtain ⟨c, hcore, hundone, hframe⟩ := core_of_snoopRNFs hstart (fun _ => nofun) (fun q hq => (List.mem_filter.1 hq).1) hnodes
    have hsingle : ∀ p ∈ s.portsToSnoop r, ∃ a next, u.Single c.req p a next := by
      intro p hp
      obtain ⟨q, hget, hmem, hneeds⟩ := mem_ccix_of_portsToSnoop hp
      rw [hframe.req]
      have hget' : u.ccix[p]? = some q := by rw [hframe.ccix, hget]
      exact single_of_needsSnoop hget' hneeds (hone hyes q hmem hneeds)
    have hsent : c.sent ++ (s.portsToSnoop r).flatMap (u.targets c.req) = u.expected c := by
      have htargets : u.targets c.req = s.targets r := by
        funext p
        rw [Home.targets, Home.targets, agents, agents, hframe.ccix, hframe.req]
      rw [hframe.expected, hframe.sent, List.nil_append, htargets, flatMap_portsToSnoop]
      exact (if_pos (hsnooped.trans hyes)).symm
    have hn : c.n = s.n := hframe.n
    have hreq : c.req = r := hframe.req
    have hports' : u.snoopPorts c.n c.req.line (s.portsToSnoop r) = some s' := by
      rw [hn, hreq]
      exact hports
    obtain ⟨c', hrun⟩ := running_of_snoopPorts hcore (fun id hid => hcore.fresh hundone (List.mem_of_mem_head? hid)) hsingle hsent hports'
    refine ⟨hrun.inv, fun c'' hc'' hcont => ?_⟩
    rw [hrun.cur] at hc''
    cases hc''
    exact absurd hcont (hrun.snooping ▸ Bool.false_ne_true)
  · rename_i hnone
    cases hs
    refine ⟨inv_of_continued hids ⟨hsnps, hthread⟩ fun c hc => ?_, fun c' hc' _ _ => ?_⟩
    · cases hc
      rfl
    · cases hc'
      refine ⟨?_, hsnps⟩
      rw [Home.expected]
      split
      · rename_i hyes
        have hempty : s.portsToSnoop r = [] := by
          by_contra hne
          exact hnone ⟨hsnooped.symm.trans hyes, .inr hne⟩
        have hall := flatMap_portsToSnoop (s := s) (r := r)
        rw [hempty, List.flatMap_nil] at hall
        exact hall
      · rfl

theorem Inv.request {remote : Option (BitVec 8)} {verdict : Bool} (h : s.Inv) (hok : s.Fair (.request r remote verdict))
    (hs : s.request r remote verdict = some s') : s'.Inv ∧ s.Continues s' := by
  obtain ⟨hfree, hs⟩ := Option.ite_none_right_eq_some.1 hs
  obtain ⟨hr, hin, hs⟩ := Option.bind_eq_some_iff.1 hs
  obtain ⟨hattr, hone⟩ := hok hr hin
  refine h.processReq (Option.isNone_iff_eq_none.1 hfree.1) hone ?_ hs
  rw [ReqTxn.isSnooped, opcode_of_incoming hin]
  cases hop : isSnoopingReq r.opcode with
  | true => rw [hattr hop]
  | false => rw [Bool.and_false, Bool.and_false]

theorem Inv.resume (h : s.Inv) (hok : s.Fair .resume) (hs : s.resume = some s') : s'.Inv ∧ s.Continues s' := by
  obtain ⟨t, ht, hs⟩ := Option.bind_eq_some_iff.1 hs
  obtain ⟨c, hc, hcont⟩ := h.exists_running fun hidle => by
    rw [hidle.2] at ht
    cases ht
  have hrun := h.running c hc hcont
  have hsend := hrun.sending t ht
  rw [hsend.rest, hsend.n, hsend.line] at hs
  obtain ⟨c', hrun'⟩ := running_of_snoopPorts hrun.toCore (fun id hid => hok id hid c hc) hsend.single hsend.sent hs
  refine ⟨hrun'.inv, fun c'' hc'' hcont' => ?_⟩
  rw [hrun'.cur] at hc''
  cases hc''
  exact absurd hcont' (hrun'.snooping ▸ Bool.false_ne_true)

/-! ### Responses -/

theorem updateSnoopFilter_frame (id : BitVec 16) (r : ReqTxn) (f : SnoopFilter → SnoopFilter) :
    ∃ rnfs ccix, s.updateSnoopFilter id r f = { s with rnfs := rnfs, ccix := ccix } ∧ rnfs.map PortRNF.nodeID = s.rnfs.map PortRNF.nodeID := by
  unfold updateSnoopFilter
  split
  · exact ⟨_, _, rfl, map_modify_of_eq (f := fun q : PortRNF => { q with snpFilter := f q.snpFilter }) (fun _ => rfl) _ _⟩
  · split <;> exact ⟨_, _, rfl, rfl⟩

/-- It does not change the filters of the remote agents when an RN-F is found, or when it changes no filter. -/
theorem updateSnoopFilter_ccix {srcID : BitVec 16} {f : SnoopFilter → SnoopFilter}
    (h : (∃ q ∈ s.rnfs, q.nodeID = srcID) ∨ ∀ x, f x = x) : (s.updateSnoopFilter srcID r f).ccix = s.ccix := by
  unfold updateSnoopFilter
  split
  · rfl
  · rename_i hnone
    split
    · rcases h with ⟨q, hq, hid⟩ | hf
      · rw [List.findIdx?_eq_none_iff] at hnone
        exact absurd hid (of_decide_eq_false (hnone q hq))
      · have hsame : (fun p : PortCCIX => p.updateSnoopFilter r f) = id := funext fun p => PortCCIX.updateSnoopFilter_id hf p r
        dsimp only
        rw [hsame, List.modify_id]
    · rfl

/-- The trackers after a response: the one of its ID is done. -/
theorem mem_setSnpTxnDone (h : (c.trackers.map Tracker.txnID).Nodup) {txnID : BitVec 8} (resp : BitVec 8) {t : Tracker} (hdone : t.done = false) :
    t ∈ (c.setSnpTxnDone txnID resp).trackers ↔ t ∈ c.trackers ∧ t.txnID ≠ txnID := by
  rw [Cur.setSnpTxnDone, modify_findIdx Tracker.txnID _ h, List.mem_map]
  constructor
  · rintro ⟨u, hu, rfl⟩
    by_cases hid : u.txnID = txnID
    · rw [if_pos hid] at hdone
      cases hdone
    · rw [if_neg hid]
      exact ⟨hu, hid⟩
  · exact fun ⟨ht, hid⟩ => ⟨t, ht, if_neg hid⟩

/-- The home after a response to one of its snoops. -/
def answered (s : Home) (i : ℕ) (w : Snp) (c : Cur) (rnfs : List PortRNF) (ccix : List PortCCIX) (resp : BitVec 8) : Home :=
  { s with
    rnfs := rnfs, ccix := ccix, snps := s.snps.eraseIdx i
    ongoingTxn := Function.update s.ongoingTxn w.txnID none
    ids := s.ids ++ [w.txnID]
    cur := some (c.setSnpTxnDone w.txnID resp).checkSnpDone }

theorem ids_answered (h : (s.ids ++ s.held ++ s.snps.map Snp.txnID).Nodup) {i : ℕ} {w : Snp} (hi : s.snps[i]? = some w)
    (rnfs : List PortRNF) (ccix : List PortCCIX) (resp : BitVec 8) :
    ((s.answered i w c rnfs ccix resp).ids ++ s.held ++ (s.answered i w c rnfs ccix resp).snps.map Snp.txnID).Nodup := by
  obtain ⟨hlt, rfl⟩ := List.getElem?_eq_some_iff.1 hi
  have hcount := fun a => ((List.getElem_cons_eraseIdx_perm hlt).map Snp.txnID).count_eq a
  refine List.Perm.nodup_iff (List.perm_iff_count.2 fun a => ?_) |>.2 h
  have ha := hcount a
  rw [List.map_cons, List.count_cons] at ha
  simp only [answered, List.count_append, List.count_singleton]
  omega

theorem Running.answered (h : s.Running c) {i : ℕ} {w : Snp} (hi : s.snps[i]? = some w) {rnfs : List PortRNF} {resp : BitVec 8}
    (hrnfs : rnfs.map PortRNF.nodeID = s.rnfs.map PortRNF.nodeID) (hall : (c.setSnpTxnDone w.txnID resp).allSnpTxnDone = false) :
    (s.answered i w c rnfs s.ccix resp).Running (c.setSnpTxnDone w.txnID resp) := by
  have hsnps : (s.snps.map Snp.txnID).Nodup := (List.nodup_append.1 h.ids).2.1
  have hmem : ∀ {w'}, w' ∈ s.snps.eraseIdx i ↔ w' ∈ s.snps ∧ w'.txnID ≠ w.txnID := mem_eraseIdx_of_key hsnps hi
  have hcheck : (c.setSnpTxnDone w.txnID resp).checkSnpDone = c.setSnpTxnDone w.txnID resp := if_neg (hall ▸ Bool.false_ne_true)
  have htrackers : (c.setSnpTxnDone w.txnID resp).trackers.map Tracker.txnID = c.trackers.map Tracker.txnID :=
    map_modify_of_eq (f := fun t : Tracker => { t with resp := resp, done := true }) (fun _ => rfl) _ _
  refine ⟨⟨?_, h.snooping, ids_answered h.ids hi _ _ _, ?_, ?_, ?_, ?_, ?_⟩, ?_, h.sent⟩
  · rw [Home.answered, hcheck]
  · rw [htrackers]
    exact h.trackers
  · intro w' hw'
    obtain ⟨hw', hne⟩ := hmem.1 hw'
    exact ⟨(h.ongoing w' hw').1, (Function.update_of_ne hne _ _).trans (h.ongoing w' hw').2⟩
  · intro w' hw'
    obtain ⟨hw', hne⟩ := hmem.1 hw'
    obtain ⟨t, ht, htxn, hdone⟩ := h.tracked w' hw'
    exact ⟨t, (mem_setSnpTxnDone h.trackers resp hdone).2 ⟨ht, htxn ▸ hne⟩, htxn, hdone⟩
  · intro t ht hdone
    obtain ⟨ht, hne⟩ := (mem_setSnpTxnDone h.trackers resp hdone).1 ht
    obtain ⟨w', hw', htxn⟩ := h.waits t ht hdone
    exact ⟨w', hmem.2 ⟨hw', htxn ▸ hne⟩, htxn⟩
  · intro w' hw' hport
    obtain ⟨q, hq, hid⟩ := h.rnf w' (hmem.1 hw').1 hport
    have hnode : w'.id ∈ rnfs.map PortRNF.nodeID := by
      rw [hrnfs, ← hid]
      exact List.mem_map_of_mem hq
    exact List.mem_map.1 hnode
  · intro t ht
    have hsend := h.sending t ht
    refine ⟨hsend.n, hsend.line, hsend.rest, fun p hp => ?_, hsend.sent⟩
    obtain ⟨a, next, hone⟩ := hsend.single p hp
    exact ⟨a, next, hone.first, hone.rest, hone.targets⟩

theorem updated_eq {srcID : BitVec 16} {f : SnoopFilter → SnoopFilter} (hf : ∀ x, f x = x) : s.updated p srcID f = s.ccix := by
  have hagents : ∀ q : PortCCIX, (q.agents.map fun a => if a.id = srcID then { a with snpFilter := f a.snpFilter } else a) = q.agents := by
    intro q
    refine (List.map_congr_left fun a _ => ?_).trans (List.map_id _)
    split
    · rw [hf]
      rfl
    · rfl
  have hsame : (fun q : PortCCIX => (⟨q.agents.map fun a => if a.id = srcID then { a with snpFilter := f a.snpFilter } else a⟩ : PortCCIX)) = id :=
    funext fun q => by rw [hagents, id]
  rw [updated, hsame, List.modify_id]

/-- The last response: the request goes on. -/
theorem Running.continues (h : s.Running c) {i : ℕ} {w : Snp} (hi : s.snps[i]? = some w) (rnfs : List PortRNF) {resp : BitVec 8}
    (hall : (c.setSnpTxnDone w.txnID resp).allSnpTxnDone = true) (hthread : s.thread = none) :
    (s.answered i w c rnfs s.ccix resp).Inv ∧ s.Continues (s.answered i w c rnfs s.ccix resp) := by
  have hsnps : (s.snps.map Snp.txnID).Nodup := (List.nodup_append.1 h.ids).2.1
  have hempty : s.snps.eraseIdx i = [] := by
    refine List.eq_nil_iff_forall_not_mem.2 fun w' hw' => ?_
    obtain ⟨hw', hne⟩ := (mem_eraseIdx_of_key hsnps hi).1 hw'
    obtain ⟨t, ht, htxn, hdone⟩ := h.tracked w' hw'
    have ht' := (mem_setSnpTxnDone h.trackers resp hdone).2 ⟨ht, htxn ▸ hne⟩
    exact Bool.false_ne_true (hdone.symm.trans (List.all_eq_true.1 hall t ht'))
  have hcheck : (c.setSnpTxnDone w.txnID resp).checkSnpDone = { c.setSnpTxnDone w.txnID resp with continued := true } := if_pos hall
  refine ⟨inv_of_continued (ids_answered h.ids hi _ _ _) ⟨hempty, hthread⟩ fun c' hc' => ?_, fun c' hc' _ _ => ?_⟩
  · rw [Home.answered, hcheck] at hc'
    cases hc'
    rfl
  · rw [Home.answered, hcheck] at hc'
    cases hc'
    exact ⟨h.sent hthread, hempty⟩

theorem Inv.respond {i : ℕ} {resp : BitVec 8} (h : s.Inv) (hok : s.Fair (.respond i resp)) (hs : s.respond i resp = some s') :
    s'.Inv ∧ s.Continues s' ∧ s.Updates s' (.respond i resp) := by
  obtain ⟨w, hi, hs⟩ := Option.bind_eq_some_iff.1 hs
  obtain ⟨m, hm, hs⟩ := Option.bind_eq_some_iff.1 hs
  obtain ⟨c, hc, hs⟩ := Option.bind_eq_some_iff.1 hs
  obtain ⟨-, hs⟩ := Option.ite_none_right_eq_some.1 hs
  obtain ⟨hinvalid, hlast⟩ := hok w hi
  have hwmem := List.mem_of_getElem? hi
  have hcont : c.continued = false := by
    by_contra hcont
    have hidle := h.idle_of_continued hc (Bool.eq_true_of_not_eq_false hcont)
    rw [hidle.1] at hwmem
    exact List.not_mem_nil hwmem
  have hrun := h.running c hc hcont
  obtain ⟨rnfs, ccix, hframe, hrnfs⟩ := updateSnoopFilter_frame (s := s) w.id c.req (SnoopFilter.updateResp c.req.line · resp)
  have hccix : ccix = s.ccix := by
    have hsame : (s.updateSnoopFilter w.id c.req (SnoopFilter.updateResp c.req.line · resp)).ccix = s.ccix := by
      refine updateSnoopFilter_ccix ?_
      cases hport : w.port with
      | none => exact .inl (hrun.rnf w hwmem hport)
      | some p => exact .inr fun x => SnoopFilter.updateResp_eq (hinvalid (Option.isSome_of_mem hport))
    rwa [hframe] at hsame
  subst hccix
  rw [hframe] at hs
  obtain rfl : s.answered i w c rnfs s.ccix resp = s' := Option.some.inj hs
  have hupdates : s.Updates (s.answered i w c rnfs s.ccix resp) (.respond i resp) := by
    intro w' hw' p hp c' hc'
    rw [hi] at hw'
    rw [hc] at hc'
    cases hw'
    cases hc'
    exact (updated_eq fun x => SnoopFilter.updateResp_eq (hinvalid (Option.isSome_of_mem hp))).symm
  cases hall : (c.setSnpTxnDone w.txnID resp).allSnpTxnDone with
  | false =>
    have hrun' := hrun.answered hi hrnfs hall
    refine ⟨hrun'.inv, fun c' hc' hcont' => ?_, hupdates⟩
    have hcur := hrun'.cur
    rw [Option.mem_def.1 hc'] at hcur
    cases hcur
    exact absurd hcont' (hrun'.snooping ▸ Bool.false_ne_true)
  | true =>
    have hthread : s.thread = none := by
      by_contra hsome
      obtain ⟨c', hc', t, ht, hne, hdone⟩ := hlast (Option.isSome_iff_ne_none.2 hsome)
      rw [hc] at hc'
      cases hc'
      have ht' := (mem_setSnpTxnDone hrun.trackers resp hdone).2 ⟨ht, hne⟩
      exact Bool.false_ne_true (hdone.symm.trans (List.all_eq_true.1 hall t ht'))
    obtain ⟨hinv, hcontinues⟩ := hrun.continues hi rnfs hall hthread
    exact ⟨hinv, hcontinues, hupdates⟩

/-! ### Runs -/

/-- Steps of the transaction processor, after the snoops. -/
theorem Inv.updateRequester (h : s.Inv) (hs : s.updateRequester = some s') : s'.Inv ∧ s.Continues s' := by
  obtain ⟨c, hc, hs⟩ := Option.bind_eq_some_iff.1 hs
  obtain ⟨hcont, hs⟩ := Option.ite_none_right_eq_some.1 hs
  have hidle := h.idle_of_continued hc hcont
  obtain ⟨rnfs, ccix, hframe, -⟩ := updateSnoopFilter_frame (s := s) c.req.srcID c.req (SnoopFilter.updateReq c.req.line · c.req.opcode)
  rw [hframe] at hs
  cases hs
  refine ⟨inv_of_continued h.ids hidle fun c' hc' => ?_, fun c' hc' _ hnot => ?_⟩
  · rw [hc] at hc'
    cases hc'
    exact hcont
  · exact absurd hcont (hnot c hc ▸ Bool.false_ne_true)

theorem Inv.requestDone (h : s.Inv) (hs : s.requestDone = some s') : s'.Inv ∧ s.Continues s' := by
  obtain ⟨c, hc, hs⟩ := Option.bind_eq_some_iff.1 hs
  obtain ⟨hcont, hs⟩ := Option.ite_none_right_eq_some.1 hs
  cases hs
  have hidle := h.idle_of_continued hc hcont
  exact ⟨inv_of_continued h.ids hidle (fun _ => nofun), fun _ => nofun⟩

/-- A request is not touched by what is done with an ID of nobody's snoop. -/
theorem Inv.of_ids (h : s.Inv) {ids held : List (BitVec 8)} {id : BitVec 8} {m : Option ℕ}
    (hperm : (ids ++ held).Perm (s.ids ++ s.held)) (hid : id ∈ s.ids ++ s.held) :
    Inv { s with ids := ids, held := held, ongoingTxn := Function.update s.ongoingTxn id m } ∧
      s.Continues { s with ids := ids, held := held, ongoingTxn := Function.update s.ongoingTxn id m } := by
  have hids : (ids ++ held ++ s.snps.map Snp.txnID).Nodup := (hperm.append_right _).nodup_iff.2 h.ids
  refine ⟨⟨hids, fun c hc hcont => ?_, h.idle⟩, fun c hc hcont hnot => absurd hcont (hnot c hc ▸ Bool.false_ne_true)⟩
  have hrun := h.running c hc hcont
  refine ⟨⟨hrun.cur, hrun.snooping, hids, hrun.trackers, fun w hw => ⟨(hrun.ongoing w hw).1, ?_⟩, hrun.tracked, hrun.waits, hrun.rnf⟩, fun t ht => ?_, hrun.sent⟩
  · have hne : w.txnID ≠ id := by
      rintro rfl
      exact (List.nodup_append.1 h.ids).2.2 _ hid _ (List.mem_map_of_mem hw) rfl
    exact (Function.update_of_ne hne _ _).trans (hrun.ongoing w hw).2
  · have hsend := hrun.sending t ht
    refine ⟨hsend.n, hsend.line, hsend.rest, fun p hp => ?_, hsend.sent⟩
    obtain ⟨a, next, hone⟩ := hsend.single p hp
    exact ⟨a, next, hone.first, hone.rest, hone.targets⟩

theorem Inv.step {a : Act} (h : s.Inv) (hok : s.Fair a) (hs : s.step a = some s') : s'.Inv ∧ s.Continues s' ∧ s.Updates s' a := by
  cases a with
  | request r remote verdict =>
    obtain ⟨hinv, hcontinues⟩ := h.request hok hs
    exact ⟨hinv, hcontinues, trivial⟩
  | resume =>
    obtain ⟨hinv, hcontinues⟩ := h.resume hok hs
    exact ⟨hinv, hcontinues, trivial⟩
  | respond i resp => exact h.respond hok hs
  | updateRequester =>
    obtain ⟨hinv, hcontinues⟩ := h.updateRequester hs
    exact ⟨hinv, hcontinues, trivial⟩
  | requestDone =>
    obtain ⟨hinv, hcontinues⟩ := h.requestDone hs
    exact ⟨hinv, hcontinues, trivial⟩
  | take m =>
    rw [Home.step, Home.take] at hs
    cases hids : s.ids with
    | nil =>
      rw [hids] at hs
      cases hs
    | cons id ids =>
      rw [hids] at hs
      cases hs
      have hperm : (ids ++ id :: s.held).Perm (s.ids ++ s.held) := by
        rw [hids]
        exact List.perm_middle
      obtain ⟨hinv, hcontinues⟩ := h.of_ids (m := some m) hperm (List.mem_append_left _ (hids ▸ List.mem_cons_self))
      exact ⟨hinv, hcontinues, trivial⟩
  | giveBack id =>
    obtain ⟨hmem, hs⟩ := Option.ite_none_right_eq_some.1 hs
    cases hs
    have hperm : (s.ids ++ [id] ++ s.held.erase id).Perm (s.ids ++ s.held) := by
      rw [List.append_assoc]
      exact (List.perm_cons_erase hmem).symm.append_left _
    obtain ⟨hinv, hcontinues⟩ := h.of_ids (m := none) hperm (List.mem_append_right _ hmem)
    exact ⟨hinv, hcontinues, trivial⟩

theorem inv_init (rnfs : List PortRNF) (ccix : List PortCCIX) : (init rnfs ccix).Inv := by
  refine inv_of_continued ?_ ⟨rfl, rfl⟩ (fun _ => nofun)
  have hids : ((List.range 256).map (BitVec.ofNat 8)).Nodup := by
    refine List.Nodup.map_on (fun m hm n hn heq => ?_) List.nodup_range
    have hnat := congrArg BitVec.toNat heq
    rw [BitVec.toNat_ofNat, BitVec.toNat_ofNat, Nat.mod_eq_of_lt (List.mem_range.1 hm), Nat.mod_eq_of_lt (List.mem_range.1 hn)] at hnat
    exact hnat
  simpa [init] using hids

/-- What holds of the snoops that are under way. -/
theorem Inv.sound (h : s.Inv) : s.Attributed ∧ s.Waits := by
  have hcases : ∀ c ∈ s.cur, c.continued = false → s.Running c := fun c hc hcont => h.running c hc hcont
  refine ⟨fun w hw => ?_, fun c hc hcont => ?_⟩
  · obtain ⟨c, hc, hcont⟩ := h.exists_running fun hidle => List.not_mem_nil (hidle.1 ▸ hw)
    have hrun := hcases c hc hcont
    exact ⟨c, hc, hcont, hrun.ongoing w hw⟩
  · have hrun := hcases c hc hcont
    refine ⟨hrun.waits, ?_⟩
    cases hthread : s.thread with
    | none =>
      rw [hrun.sent hthread]
    | some t => exact ⟨_, (hrun.sending t hthread).sent⟩

/-- **Remote snooping.** In a run whose steps are fair, the snoops that are under way are those of the
request that waits for them, which goes on when all remote agents other than its requester that have its
line were sent one and have answered, and a response updates the filter of the agent that sent it. -/
theorem snooping_of_run {rnfs : List PortRNF} {ccix : List PortCCIX} (h : Reach step Fair (init rnfs ccix) s) :
    s.Attributed ∧ s.Waits ∧ ∀ a s', s.Fair a → s.step a = some s' → s.Continues s' ∧ s.Updates s' a := by
  have hinv : s.Inv := Reach.invariant (inv_init rnfs ccix) (fun hi hok hs => (hi.step hok hs).1) h
  exact ⟨hinv.sound.1, hinv.sound.2, fun a s' hok hs => (hinv.step hok hs).2⟩

/-- A request for the first line. -/
def reqBy (srcID : BitVec 16) (opcode : BitVec 8) : ReqTxn := ⟨srcID, 0, false, opcode, true, false, false⟩

/-- A remote agent reads a line, and then the RN-F of the home does. -/
def sharedRun : List Act :=
  [.request (reqBy 1 Chi.readShared) (some 0) true, .updateRequester, .requestDone, .request (reqBy 16 Chi.readShared) none true, .resume,
    .respond 0 1]

theorem snooping_of_shared : ∃ s, run step (init [⟨16, []⟩] [⟨[⟨1, []⟩, ⟨2, []⟩]⟩]) sharedRun = some s ∧
    s.Attributed ∧ s.Waits ∧ ∀ a s', s.Fair a → s.step a = some s' → s.Continues s' ∧ s.Updates s' a := by
  have hsome : (run step (init [⟨16, []⟩] [⟨[⟨1, []⟩, ⟨2, []⟩]⟩]) sharedRun).isSome = true := by decide +kernel
  obtain ⟨s, hs⟩ := Option.isSome_iff_exists.1 hsome
  exact ⟨s, hs, snooping_of_run (Reach.refl.of_run (by decide +kernel) hs)⟩

/-- Two agents of a port have the line: the first that answers completes the snoop of both. -/
theorem not_attributed_twoAgents : ¬ ∀ s, Reach step anyStep (init [⟨16, []⟩] [⟨[⟨1, []⟩, ⟨2, []⟩]⟩]) s → s.Attributed := by
  intro h
  have hlost : (run step (init [⟨16, []⟩] [⟨[⟨1, []⟩, ⟨2, []⟩]⟩])
      [.request (reqBy 1 Chi.readShared) (some 0) true, .updateRequester, .requestDone, .request (reqBy 2 Chi.readShared) (some 0) true,
        .resume, .respond 0 1, .updateRequester, .requestDone, .request (reqBy 16 Chi.readUnique) none true, .resume,
        .respond 0 0]).map (fun s => s.snps.map fun w => s.ongoingTxn w.txnID) = some [none] := by
    decide +kernel
  obtain ⟨s, hs, hsnps⟩ := Option.map_eq_some_iff.1 hlost
  obtain ⟨w, hw, hnone⟩ := List.mem_map.1 (hsnps ▸ List.mem_singleton_self none)
  obtain ⟨c, -, -, -, hongoing⟩ := h s (reach_of_run hs) w hw
  rw [hnone] at hongoing
  cases hongoing

end Home

end LibSystemCTLM.Ccix
