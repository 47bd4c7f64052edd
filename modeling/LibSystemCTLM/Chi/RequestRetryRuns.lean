import LibSystemCTLM.Chi.RequestRetry
import Mathlib.Data.List.Find
import Mathlib.Data.List.Nodup
import Mathlib.Data.List.Perm.Subperm

/-!
# What the retry checker tracks

The checker should have the credits of the ledger, keep every request that may be issued again, and report the
errors that are due and no others (`Tracked`). It does in runs (`tracked_of_run`) without a PrefetchTgt, in
which the last credit of a type is used or returned when no other request waits for one, a request that is
issued again is found with the completer that refused it, and one that may not be issued is not kept with its type.
-/

namespace LibSystemCTLM.Chi.Retry

open Foundation

/-! ### What is asked -/

structure Tracked (s : State) : Prop where
  errors : s.checker.errors = s.ledger.due
  credits : ∀ c ∈ s.checker.completers, ∀ t,
    (c.credits t).numPCredits.toNat + s.ledger.uses c.nodeID t + s.ledger.returns c.nodeID t = s.ledger.grants c.nodeID t
  kept : ∀ e ∈ s.ledger.retried, ∃ c ∈ s.checker.completers, c.nodeID = e.node ∧ e.req ∈ (c.credits e.type).reqs

namespace Ledger

variable (l : Ledger)

/-- A request that may not be refused: the place names what it issues again or gives up, and there is none only if
nothing that was refused and has a credit is like it. -/
def Names (req : ReqFlit) : Option ℕ → Prop
  | some i => ∃ e, l.retried[i]? = some e ∧ e.type = reqType req ∧ 0 < l.credits e.node e.type ∧
      if req.opcode = pCrdReturn then e.node = req.tgtID else compare e.req req = true
  | none => req.opcode = pCrdReturn ∨ ∀ e ∈ l.retried, e.type = reqType req → compare e.req req = true → l.credits e.node e.type = 0

/-- When no request is outstanding, every credit is for a request that was refused. -/
def Settled : Prop := (∀ id, l.outstanding id = none) → ∀ node t, l.credits node t ≤ (l.waiting node t).length

end Ledger

/-- What the protocol asks: a PCrdReturn is never refused, a RetryAck answers a request, and a credit is granted for a
request that is refused. -/
def Follows (s : State) : Act → Prop
  | .request req k =>
      if isReqLCrdReturn req = true then True
      else if req.allowRetry = true then req.opcode ≠ pCrdReturn
      else req.opcode = prefetchTgt ∨ s.ledger.Names req k
  | .response rsp => (rsp.opcode = retryAck → (s.ledger.outstanding rsp.txnID).isSome = true) ∧ (s.ledger.response rsp).Settled
  | .data lCrdReturn txnID => (s.ledger.data lCrdReturn txnID).Settled

/-- The checker finds what the request issues again, or does not find it. -/
def Finds (s : State) (req : ReqFlit) (k : Option ℕ) : Prop :=
  match k.bind fun k => s.ledger.retried[k]? with
  | some e => ∃ c, s.checker.lookupCompleter req = some c ∧ c.nodeID = e.node
  | none => ∀ c, s.checker.lookupCompleter req = some c → (c.credits (reqType req)).containsRetriedRequest req = false

/-- What has to hold besides, so that the checker is right. -/
def Fair (s : State) (a : Act) : Prop :=
  Follows s a ∧
    match a with
    | .request req k => isReqLCrdReturn req = false → req.allowRetry = false → req.opcode ≠ prefetchTgt ∧ (req.opcode ≠ pCrdReturn → Finds s req k) ∧
        ∀ node t, 0 < s.ledger.credits node t → (s.ledger.request req k).credits node t = 0 → (s.ledger.request req k).waiting node t = []
    | .response rsp => (rsp.opcode = pCrdGrant → s.ledger.credits rsp.srcID (rspType rsp) + 1 < 2 ^ 32) ∧
        (rsp.opcode = 0 → s.ledger.outstanding rsp.txnID = none)
    | .data lCrdReturn txnID => lCrdReturn = true → s.ledger.outstanding txnID = none

/-! ### The credits of a completer -/

namespace Checker

variable (s : Checker)

/-- The credits of a node, which has none without a completer. -/
def cell (node : BitVec 16) (t : BitVec 4) : PCredits := ((s.lookupNode node).map fun c => c.credits t).getD {}

variable {s} {node node' : BitVec 16} {t t' : BitVec 4} {f : PCredits → PCredits}

theorem nodeID_of_lookupNode {c : Completer} (h : s.lookupNode node = some c) : c.nodeID = node := by
  have hid := List.find?_some h
  exact beq_iff_eq.1 hid

theorem lookupNode_change : (s.change node t f).lookupNode node' = (s.lookupNode node').map fun c => if c.nodeID = node then c.change t f else c := by
  unfold lookupNode Checker.change
  rw [List.find?_map]
  congr 1
  congr 1
  funext c
  simp only [Function.comp]
  split <;> rfl

theorem cell_change (hex : (s.lookupNode node).isSome = true) :
    (s.change node t f).cell node' t' = if node' = node ∧ t' = t then f (s.cell node t) else s.cell node' t' := by
  unfold cell
  rw [lookupNode_change]
  cases hfind : s.lookupNode node' with
  | none =>
    have hne : node' ≠ node := by
      rintro rfl
      rw [hfind] at hex
      cases hex
    rw [if_neg fun h => hne h.1]
    rfl
  | some c =>
    have hid := nodeID_of_lookupNode hfind
    by_cases hnode : node' = node
    · subst hnode
      rw [hfind]
      simp only [Option.map_some, Option.getD_some, hid, if_true, true_and, Completer.change]
      by_cases ht : t' = t
      · subst ht
        rw [if_pos rfl, Function.update_self]
      · rw [if_neg ht, Function.update_of_ne ht]
    · rw [if_neg fun h => hnode h.1]
      simp only [Option.map_some, Option.getD_some, hid, if_neg hnode]

theorem lookupNode_ensure : ((s.ensure node).lookupNode node).isSome = true := by
  unfold ensure
  split
  · rename_i c hfind
    rw [hfind]
    rfl
  · unfold lookupNode
    rw [List.find?_isSome]
    exact ⟨{ nodeID := node }, List.mem_append_right _ List.mem_cons_self, beq_self_eq_true node⟩

theorem cell_ensure : (s.ensure node).cell node' t' = s.cell node' t' := by
  unfold ensure
  split
  · rfl
  · rename_i hnone
    unfold cell lookupNode
    rw [List.find?_append]
    cases hfind : s.completers.find? fun c => c.nodeID == node' with
    | some c => rfl
    | none =>
      rw [Option.none_or, List.find?_singleton]
      split <;> rfl

theorem ids_change : (s.change node t f).completers.map (·.nodeID) = s.completers.map (·.nodeID) := by
  unfold Checker.change
  rw [List.map_map]
  refine List.map_congr_left fun c _ => ?_
  simp only [Function.comp]
  split <;> rfl

theorem ids_ensure (h : (s.completers.map (·.nodeID)).Nodup) : ((s.ensure node).completers.map (·.nodeID)).Nodup := by
  unfold ensure
  split
  · exact h
  · rename_i hnone
    rw [List.map_append, List.map_singleton]
    refine h.append (List.nodup_singleton _) (List.disjoint_singleton.2 fun hin => ?_)
    obtain ⟨c, hc, hid⟩ := List.mem_map.1 hin
    exact absurd (beq_iff_eq.2 hid) (List.find?_eq_none.1 hnone c hc)

theorem cell_of_mem {c : Completer} (h : (s.completers.map (·.nodeID)).Nodup) (hc : c ∈ s.completers) : s.cell c.nodeID t = c.credits t := by
  unfold cell
  cases hfind : s.lookupNode c.nodeID with
  | none => exact absurd (beq_self_eq_true c.nodeID) (List.find?_eq_none.1 hfind c hc)
  | some d =>
    have hid := nodeID_of_lookupNode hfind
    rw [List.inj_on_of_nodup_map h (List.mem_of_find?_eq_some hfind) hc hid]
    rfl

end Checker

/-! ### What a run keeps -/

/-- The credits of a completer and type against the ledger. -/
structure Cell (l : Ledger) (node : BitVec 16) (t : BitVec 4) (p : PCredits) : Prop where
  count : p.numPCredits.toNat + l.uses node t + l.returns node t = l.grants node t
  kept : (l.waiting node t).Subperm p.reqs
  plain : ∀ req ∈ p.reqs, req.opcode ≠ pCrdReturn

/-- What holds along a run whose steps are fair. -/
structure Inv (s : State) : Prop where
  errors : s.checker.errors = s.ledger.due
  ids : (s.checker.completers.map (·.nodeID)).Nodup
  txn : s.checker.txn = s.ledger.outstanding
  plain : ∀ id req, s.checker.txn id = some req → req.opcode ≠ pCrdReturn
  cell : ∀ node t, Cell s.ledger node t (s.checker.cell node t)

theorem Cell.credits_eq {l : Ledger} {node : BitVec 16} {t : BitVec 4} {p : PCredits} (h : Cell l node t p) : l.credits node t = p.numPCredits.toNat := by
  have hcount := h.count
  unfold Ledger.credits
  omega

theorem Inv.init : Inv {} := by
  refine ⟨rfl, List.nodup_nil, rfl, fun id req hreq => ?_, fun node t => ⟨?_, List.nil_subperm, fun req hreq => ?_⟩⟩
  · cases hreq
  · have hzero : ((0 : BitVec 32)).toNat + 0 + 0 = 0 := rfl
    exact hzero
  · cases hreq

theorem mem_waiting {l : Ledger} {e : Retried} (he : e ∈ l.retried) : e.req ∈ l.waiting e.node e.type :=
  List.mem_map.2 ⟨e, List.mem_filter.2 ⟨he, by simp⟩, rfl⟩

theorem Inv.tracked {s : State} (h : Inv s) : Tracked s := by
  refine ⟨h.errors, fun c hc t => ?_, fun e he => ?_⟩
  · rw [← Checker.cell_of_mem h.ids hc]
    exact (h.cell c.nodeID t).count
  · have hin := (h.cell e.node e.type).kept.subset (mem_waiting he)
    unfold Checker.cell at hin
    cases hfind : s.checker.lookupNode e.node with
    | none =>
      rw [hfind] at hin
      cases hin
    | some c =>
      rw [hfind] at hin
      exact ⟨c, List.mem_of_find?_eq_some hfind, Checker.nodeID_of_lookupNode hfind, hin⟩

/-! ### The check -/

theorem noneOutstanding_iff (s : Checker) : s.noneOutstanding = true ↔ ∀ id, s.txn id = none := by
  unfold Checker.noneOutstanding
  rw [List.all_eq_true]
  constructor
  · intro hall id
    have hid := hall id.toNat (List.mem_range.2 id.isLt)
    rwa [BitVec.ofNat_toNat, BitVec.setWidth_eq, Option.isNone_iff_eq_none] at hid
  · intro hall i _
    rw [hall]
    rfl

/-- The check finds nothing where the ledger is settled. -/
theorem Inv.checkCompleters {s : State} (h : Inv s) (hsettled : s.ledger.Settled) : Inv ⟨s.checker.checkCompleters, s.ledger⟩ := by
  have hcheck : s.checker.checkCompleters = s.checker := by
    unfold Checker.checkCompleters
    refine if_neg fun hfail => ?_
    obtain ⟨hnone, hbad⟩ := hfail
    rw [noneOutstanding_iff, h.txn] at hnone
    have hgood : s.checker.completers.all Completer.check = true := by
      refine List.all_eq_true.2 fun c hc => List.all_eq_true.2 fun t _ => decide_eq_true ?_
      have hcell := h.cell c.nodeID t
      rw [← Checker.cell_of_mem h.ids hc, ← hcell.credits_eq]
      exact (hsettled hnone c.nodeID t).trans hcell.kept.length_le
    rw [hgood] at hbad
    cases hbad
  rw [hcheck]
  exact h

/-! ### The ledger -/

section Ledgers

variable {l l' : Ledger} {node : BitVec 16} {t : BitVec 4} {p : PCredits}

theorem incr_eq (f : BitVec 16 → BitVec 4 → ℕ) (node node' : BitVec 16) (t t' : BitVec 4) :
    incr f node t node' t' = f node' t' + if node' = node ∧ t' = t then 1 else 0 := by
  unfold incr
  split <;> rfl

/-- What waits is less when a request is taken off. -/
theorem waiting_eraseIdx (k : Option ℕ) (h : l'.retried = (k.map l.retried.eraseIdx).getD l.retried) (node : BitVec 16) (t : BitVec 4) :
    (l'.waiting node t).Sublist (l.waiting node t) := by
  unfold Ledger.waiting
  rw [h]
  cases k with
  | none => exact List.Sublist.refl _
  | some i => exact ((List.eraseIdx_sublist l.retried i).filter _).map _

theorem waiting_concat {e : Retried} (h : l'.retried = l.retried ++ [e]) (node : BitVec 16) (t : BitVec 4) :
    l'.waiting node t = l.waiting node t ++ if node = e.node ∧ t = e.type then [e.req] else [] := by
  unfold Ledger.waiting
  rw [h, List.filter_append, List.map_append, List.filter_cons, List.filter_nil]
  by_cases he : node = e.node ∧ t = e.type
  · rw [if_pos he, if_pos (by simp [he])]
    rfl
  · have hne : (decide (e.node = node) && decide (e.type = t)) = false := by
      rw [Bool.and_eq_false_iff, decide_eq_false_iff_not, decide_eq_false_iff_not]
      by_cases hn : e.node = node
      · exact .inr fun ht => he ⟨hn.symm, ht.symm⟩
      · exact .inl hn
    rw [if_neg he, hne]
    rfl

/-- Where the ledger stays, but for requests that are taken off. -/
theorem Cell.of_eq (h : Cell l node t p) (hgrants : l'.grants node t = l.grants node t)
    (hspent : l'.uses node t + l'.returns node t = l.uses node t + l.returns node t) (hsub : (l'.waiting node t).Sublist (l.waiting node t)) :
    Cell l' node t p :=
  ⟨by rw [Nat.add_assoc, hspent, hgrants, ← Nat.add_assoc]; exact h.count, hsub.subperm.trans h.kept, h.plain⟩

theorem toNat_sub_one {x : BitVec 32} (h : 0 < x.toNat) : (x - 1).toNat = x.toNat - 1 := by
  rw [BitVec.toNat_sub]
  change (2 ^ 32 - 1 + x.toNat) % 2 ^ 32 = x.toNat - 1
  omega

theorem Cell.spend (h : Cell l node t p) (hcredits : 0 < l.credits node t) (hgrants : l'.grants node t = l.grants node t)
    (hspent : l'.uses node t + l'.returns node t = l.uses node t + l.returns node t + 1) (hsub : (l'.waiting node t).Sublist (l.waiting node t))
    (hlast : l'.credits node t = 0 → l'.waiting node t = []) : Cell l' node t p.decNumPCredits := by
  have hnum := h.credits_eq
  have hcount := h.count
  have hsubone : (p.numPCredits - 1).toNat = p.numPCredits.toNat - 1 := toNat_sub_one (by omega)
  refine ⟨?_, ?_, fun req hreq => ?_⟩
  · change (p.numPCredits - 1).toNat + _ + _ = _
    omega
  · change (l'.waiting node t).Subperm (if p.numPCredits - 1 = 0 then [] else p.reqs)
    split
    · rename_i hzero
      have hzero' : (p.numPCredits - 1).toNat = 0 := congrArg BitVec.toNat hzero
      have hnone : l'.credits node t = 0 := by
        unfold Ledger.credits
        omega
      exact hlast hnone ▸ List.nil_subperm
    · exact hsub.subperm.trans h.kept
  · refine h.plain req ?_
    have hin : req ∈ if p.numPCredits - 1 = 0 then [] else p.reqs := hreq
    split at hin
    · cases hin
    · exact hin

end Ledgers

/-! ### Requests -/

section Requests

variable {s : State} {req : ReqFlit} {k : Option ℕ}

theorem compare_opcode {a b : ReqFlit} (h : compare a b = true) : a.opcode = b.opcode := by
  simp only [compare, Bool.and_eq_true, beq_iff_eq] at h
  exact h.1.1.1.1.1.1.1.1.1.1.1.1.1.2

/-- A PCrdReturn is like no request that was refused. -/
theorem Inv.contains_pCrdReturn (h : Inv s) (hop : req.opcode = pCrdReturn) {c : Completer} (hc : c ∈ s.checker.completers) (t : BitVec 4) :
    (c.credits t).containsRetriedRequest req = false := by
  refine List.any_eq_false.2 fun q hq hcompare => ?_
  rw [← Checker.cell_of_mem h.ids hc] at hq
  exact (h.cell c.nodeID t).plain q hq ((compare_opcode hcompare).trans hop)

/-- A PCrdReturn is for the completer that it is sent to. -/
theorem Inv.lookup_pCrdReturn (h : Inv s) (hop : req.opcode = pCrdReturn) : s.checker.lookupCompleter req = s.checker.lookupNode req.tgtID := by
  refine List.find?_congr fun c hc => ?_
  have hcontains : c.containsRetriedRequest req = false :=
    List.any_eq_false.2 fun t _ => by rw [h.contains_pCrdReturn hop hc]; exact Bool.noConfusion
  rw [hcontains, hop, beq_self_eq_true, Bool.true_and, Bool.or_false]

/-- A change of the credits of one completer and type. -/
theorem Inv.change {l : Ledger} {node : BitVec 16} {t : BitVec 4} {f : PCredits → PCredits} (h : Inv s) (hex : (s.checker.lookupNode node).isSome = true)
    (hcell : Cell l node t (f (s.checker.cell node t))) (hother : ∀ node' t', ¬(node' = node ∧ t' = t) → Cell l node' t' (s.checker.cell node' t'))
    (hdue : l.due = s.ledger.due) (hout : l.outstanding = s.ledger.outstanding) : Inv ⟨s.checker.change node t f, l⟩ := by
  refine ⟨h.errors.trans hdue.symm, ?_, h.txn.trans hout.symm, h.plain, fun node' t' => ?_⟩
  · rw [Checker.ids_change]
    exact h.ids
  · change Cell l node' t' ((s.checker.change node t f).cell node' t')
    rw [Checker.cell_change hex]
    split
    · rename_i heq
      rw [heq.1, heq.2]
      exact hcell
    · rename_i hne
      exact hother node' t' hne

theorem Inv.reportError (h : Inv s) : Inv ⟨s.checker.reportError, { s.ledger with due := s.ledger.due + 1 }⟩ :=
  ⟨congrArg (· + 1) h.errors, h.ids, h.txn, h.plain, fun node t => (h.cell node t).of_eq rfl rfl (List.Sublist.refl _)⟩

theorem Inv.spend {l : Ledger} {node : BitVec 16} {t : BitVec 4} (h : Inv s) (hex : (s.checker.lookupNode node).isSome = true)
    (hcredits : 0 < s.ledger.credits node t) (hgrants : l.grants = s.ledger.grants)
    (hspent : ∀ node' t', l.uses node' t' + l.returns node' t' =
      s.ledger.uses node' t' + s.ledger.returns node' t' + if node' = node ∧ t' = t then 1 else 0)
    (hsub : ∀ node' t', (l.waiting node' t').Sublist (s.ledger.waiting node' t'))
    (hlast : l.credits node t = 0 → l.waiting node t = []) (hdue : l.due = s.ledger.due) (hout : l.outstanding = s.ledger.outstanding) :
    Inv ⟨s.checker.change node t PCredits.decNumPCredits, l⟩ := by
  refine h.change hex ?_ (fun node' t' hne => ?_) hdue hout
  · have hone := hspent node t
    rw [if_pos ⟨rfl, rfl⟩] at hone
    exact (h.cell node t).spend hcredits (by rw [hgrants]) hone (hsub node t) hlast
  · have hnone := hspent node' t'
    rw [if_neg hne, Nat.add_zero] at hnone
    exact (h.cell node' t').of_eq (by rw [hgrants]) hnone (hsub node' t')

theorem Inv.setTxn (h : Inv s) (id : BitVec 8) (o : Option ReqFlit) (hplain : ∀ q, o = some q → q.opcode ≠ pCrdReturn) :
    Inv ⟨s.checker.setTxn id o, { s.ledger with outstanding := Function.update s.ledger.outstanding id o }⟩ := by
  refine ⟨h.errors, h.ids, ?_, fun id' q hq => ?_, fun node t => (h.cell node t).of_eq rfl rfl (List.Sublist.refl _)⟩
  · change Function.update s.checker.txn id o = Function.update s.ledger.outstanding id o
    rw [h.txn]
  · have hq' : Function.update s.checker.txn id o id' = some q := hq
    by_cases hid : id' = id
    · rw [hid, Function.update_self] at hq'
      exact hplain q hq'
    · rw [Function.update_of_ne hid] at hq'
      exact h.plain id' q hq'

theorem sampleRequest_of_not_allowRetry (c : Checker) (hlink : isReqLCrdReturn req = false) (hretry : req.allowRetry = false) :
    c.sampleRequest req =
      match c.lookupCompleter req with
      | none => c.reportError
      | some d => if d.returnPCredit req = true then c.change d.nodeID (reqType req) PCredits.decNumPCredits else c.reportError := by
  unfold Checker.sampleRequest
  rw [hlink, hretry]
  rfl

theorem Inv.givenBack (h : Inv s) (hlink : isReqLCrdReturn req = false) (hretry : req.allowRetry = false) (hop : req.opcode = pCrdReturn)
    (hlast : ∀ node t, 0 < s.ledger.credits node t → (s.ledger.request req k).credits node t = 0 → (s.ledger.request req k).waiting node t = []) :
    Inv ⟨s.checker.sampleRequest req, s.ledger.request req k⟩ := by
  have hledger : s.ledger.request req k =
      if 0 < s.ledger.credits req.tgtID (reqType req) then
        { s.ledger with returns := incr s.ledger.returns req.tgtID (reqType req), retried := (k.map s.ledger.retried.eraseIdx).getD s.ledger.retried }
      else { s.ledger with due := s.ledger.due + 1 } := by
    unfold Ledger.request
    rw [hlink, hretry, if_neg Bool.false_ne_true, if_neg Bool.false_ne_true, hop, if_neg (by decide), if_pos rfl]
  have hcredits := (h.cell req.tgtID (reqType req)).credits_eq
  rw [sampleRequest_of_not_allowRetry _ hlink hretry, h.lookup_pCrdReturn hop]
  rw [hledger] at hlast ⊢
  unfold Checker.cell at hcredits
  cases hfind : s.checker.lookupNode req.tgtID with
  | none =>
    rw [hfind] at hcredits
    rw [if_neg (by rw [hcredits]; exact Nat.lt_irrefl 0)]
    exact h.reportError
  | some c =>
    have hid := Checker.nodeID_of_lookupNode hfind
    have hreturn : c.returnPCredit req = decide (0 < (c.credits (reqType req)).numPCredits.toNat) := by
      unfold Completer.returnPCredit
      rw [h.contains_pCrdReturn hop (List.mem_of_find?_eq_some hfind), hop, beq_self_eq_true, Bool.true_and, Bool.or_false]
      rfl
    rw [hfind, Option.map_some, Option.getD_some] at hcredits
    change Inv ⟨if c.returnPCredit req = true then s.checker.change c.nodeID _ _ else s.checker.reportError, _⟩
    rw [← hcredits] at hreturn
    rw [hid]
    by_cases hpos : 0 < s.ledger.credits req.tgtID (reqType req)
    · rw [if_pos hpos] at hlast
      rw [if_pos (hreturn.trans (decide_eq_true hpos)), if_pos hpos]
      refine h.spend (by rw [hfind]; rfl) hpos rfl (fun node t => ?_) (waiting_eraseIdx k rfl) (hlast _ _ hpos) rfl rfl
      change s.ledger.uses node t + incr _ _ _ node t = _
      rw [incr_eq, Nat.add_assoc]
    · rw [if_neg (by rw [hreturn, decide_eq_false hpos]; exact Bool.false_ne_true), if_neg hpos]
      exact h.reportError

/-- A request is issued again, or may not be issued. -/
theorem Inv.reissue (h : Inv s) (hlink : isReqLCrdReturn req = false) (hretry : req.allowRetry = false) (hop : req.opcode ≠ pCrdReturn)
    (hpre : req.opcode ≠ prefetchTgt) (hnames : s.ledger.Names req k) (hfinds : Finds s req k)
    (hlast : ∀ node t, 0 < s.ledger.credits node t → (s.ledger.request req k).credits node t = 0 → (s.ledger.request req k).waiting node t = []) :
    Inv ⟨s.checker.sampleRequest req, s.ledger.request req k⟩ := by
  have hledger : s.ledger.request req k =
      (k.bind fun k => s.ledger.retried[k]?).elim { s.ledger with due := s.ledger.due + 1 } fun e =>
        { s.ledger with uses := incr s.ledger.uses e.node e.type, retried := (k.map s.ledger.retried.eraseIdx).getD s.ledger.retried } := by
    unfold Ledger.request
    rw [hlink, hretry, if_neg Bool.false_ne_true, if_neg Bool.false_ne_true, if_neg hpre, if_neg hop]
    cases k.bind fun k => s.ledger.retried[k]? <;> rfl
  rw [sampleRequest_of_not_allowRetry _ hlink hretry]
  rw [hledger] at hlast ⊢
  unfold Finds at hfinds
  cases hat : k.bind fun k => s.ledger.retried[k]? with
  | none =>
    rw [hat] at hfinds
    cases hfind : s.checker.lookupCompleter req with
    | none => exact h.reportError
    | some c =>
      have hreturn : c.returnPCredit req = false := by
        unfold Completer.returnPCredit
        rw [hfinds c hfind, beq_false_of_ne hop]
        rfl
      change Inv ⟨if c.returnPCredit req = true then s.checker.change c.nodeID _ _ else s.checker.reportError, _⟩
      rw [hreturn]
      exact h.reportError
  | some e =>
    obtain ⟨i, rfl, hi⟩ := Option.bind_eq_some_iff.1 hat
    obtain ⟨e', he', htype, hcredits, hlike⟩ := hnames
    obtain rfl : e = e' := Option.some.inj (hi.symm.trans he')
    rw [if_neg hop] at hlike
    rw [hat] at hfinds hlast
    obtain ⟨c, hfind, hid⟩ := hfinds
    have hc : c ∈ s.checker.completers := List.mem_of_find?_eq_some hfind
    have hmem : e.req ∈ (c.credits e.type).reqs := by
      rw [← Checker.cell_of_mem h.ids hc, hid]
      exact (h.cell e.node e.type).kept.subset (mem_waiting (List.mem_of_getElem? hi))
    have hreturn : c.returnPCredit req = true := by
      unfold Completer.returnPCredit
      rw [Bool.or_eq_true, ← htype]
      exact .inr (List.any_eq_true.2 ⟨e.req, hmem, hlike⟩)
    rw [hfind]
    change Inv ⟨if c.returnPCredit req = true then s.checker.change c.nodeID _ _ else s.checker.reportError, _⟩
    rw [if_pos hreturn, hid, ← htype]
    have hex : (s.checker.lookupNode e.node).isSome = true := by
      unfold Checker.lookupNode
      rw [List.find?_isSome]
      exact ⟨c, hc, beq_iff_eq.2 hid⟩
    refine h.spend hex hcredits rfl (fun node t => ?_) (waiting_eraseIdx (some i) rfl) (hlast _ _ hcredits) rfl rfl
    change incr _ _ _ node t + s.ledger.returns node t = _
    rw [incr_eq, Nat.add_right_comm]

theorem Inv.sampleRequest (h : Inv s) (hfair : Fair s (.request req k)) : Inv ⟨s.checker.sampleRequest req, s.ledger.request req k⟩ := by
  obtain ⟨hfollows, hrest⟩ := hfair
  cases hlink : isReqLCrdReturn req with
  | true =>
    unfold Checker.sampleRequest Ledger.request
    rw [hlink]
    exact h
  | false =>
    simp only [Follows, hlink, Bool.false_eq_true, if_false] at hfollows
    cases hretry : req.allowRetry with
    | true =>
      rw [hretry, if_pos rfl] at hfollows
      unfold Checker.sampleRequest Ledger.request
      rw [hlink, hretry]
      exact h.setTxn _ _ fun q hq => Option.some.inj hq ▸ hfollows
    | false =>
      obtain ⟨hpre, hfinds, hlast⟩ := hrest hlink hretry
      rw [hretry, if_neg Bool.false_ne_true] at hfollows
      by_cases hop : req.opcode = pCrdReturn
      · exact h.givenBack hlink hretry hop hlast
      · exact h.reissue hlink hretry hop hpre (hfollows.resolve_left hpre) (hfinds hop) hlast

end Requests

/-! ### Responses and data -/

section Responses

variable {s : State} {rsp : RspFlit}

theorem ensure_errors (c : Checker) (node : BitVec 16) : (c.ensure node).errors = c.errors ∧ (c.ensure node).txn = c.txn := by
  unfold Checker.ensure
  split <;> exact ⟨rfl, rfl⟩

theorem Inv.ensure (h : Inv s) (node : BitVec 16) : Inv ⟨s.checker.ensure node, s.ledger⟩ := by
  have hsame := ensure_errors s.checker node
  refine ⟨hsame.1.trans h.errors, Checker.ids_ensure h.ids, hsame.2.trans h.txn, fun id req hreq => ?_, fun node' t => ?_⟩
  · rw [hsame.2] at hreq
    exact h.plain id req hreq
  · change Cell s.ledger node' t ((s.checker.ensure node).cell node' t)
    rw [Checker.cell_ensure]
    exact h.cell node' t

/-- A request that is no longer outstanding. -/
theorem Inv.answered (h : Inv s) (id : BitVec 8) :
    Inv ⟨s.checker.setTxn id none, { s.ledger with outstanding := Function.update s.ledger.outstanding id none }⟩ :=
  h.setTxn id none fun _ hq => nomatch hq

theorem Inv.unanswered (h : Inv s) {id : BitVec 8} (hnone : s.ledger.outstanding id = none) : Inv ⟨s.checker.setTxn id none, s.ledger⟩ := by
  have hsame : s.checker.setTxn id none = s.checker := by
    unfold Checker.setTxn
    rw [h.txn, ← hnone, Function.update_eq_self, ← h.txn]
  rw [hsame]
  exact h

/-- A request is refused, and kept by the completer. -/
theorem Inv.refused (h : Inv s) {q : ReqFlit} (hq : s.ledger.outstanding rsp.txnID = some q) :
    Inv ⟨((s.checker.ensure rsp.srcID).setTxn rsp.txnID none).change rsp.srcID (rspType rsp) (·.addRequest q),
      { s.ledger with
        outstanding := Function.update s.ledger.outstanding rsp.txnID none
        retried := s.ledger.retried ++ [⟨rsp.srcID, rspType rsp, q⟩] }⟩ := by
  have hbase := (h.ensure rsp.srcID).answered rsp.txnID
  have hplain : q.opcode ≠ pCrdReturn := h.plain rsp.txnID q (by rw [h.txn, hq])
  refine hbase.change Checker.lookupNode_ensure ?_ (fun node' t' hne => ?_) rfl rfl
  · have hcell := hbase.cell rsp.srcID (rspType rsp)
    refine ⟨hcell.count, ?_, fun req hreq => ?_⟩
    · rw [waiting_concat rfl, if_pos ⟨rfl, rfl⟩]
      exact (List.subperm_append_right [q]).2 hcell.kept
    · obtain hold | hnew := List.mem_append.1 hreq
      · exact hcell.plain req hold
      · rw [List.mem_singleton.1 hnew]
        exact hplain
  · have hcell := hbase.cell node' t'
    refine ⟨hcell.count, ?_, hcell.plain⟩
    rw [waiting_concat rfl, if_neg hne, List.append_nil]
    exact hcell.kept

theorem Inv.granted (h : Inv s) (hsmall : s.ledger.credits rsp.srcID (rspType rsp) + 1 < 2 ^ 32) :
    Inv ⟨(s.checker.ensure rsp.srcID).change rsp.srcID (rspType rsp) PCredits.incNumPCredits,
      { s.ledger with grants := incr s.ledger.grants rsp.srcID (rspType rsp) }⟩ := by
  have hbase := h.ensure rsp.srcID
  refine hbase.change Checker.lookupNode_ensure ?_ (fun node' t' hne => ?_) rfl rfl
  · have hcell := hbase.cell rsp.srcID (rspType rsp)
    rw [hcell.credits_eq] at hsmall
    refine ⟨?_, hcell.kept, hcell.plain⟩
    have hone : (((s.checker.ensure rsp.srcID).cell rsp.srcID (rspType rsp)).numPCredits + 1).toNat =
        ((s.checker.ensure rsp.srcID).cell rsp.srcID (rspType rsp)).numPCredits.toNat + 1 := by
      rw [BitVec.toNat_add]
      exact Nat.mod_eq_of_lt hsmall
    change (((s.checker.ensure rsp.srcID).cell rsp.srcID (rspType rsp)).numPCredits + 1).toNat + _ + _ = incr _ _ _ _ _
    rw [hone, incr_eq, if_pos ⟨rfl, rfl⟩, Nat.add_right_comm _ 1, Nat.add_right_comm _ 1]
    exact congrArg (· + 1) hcell.count
  · have hcell := hbase.cell node' t'
    refine ⟨?_, hcell.kept, hcell.plain⟩
    change _ = incr _ _ _ node' t'
    rw [incr_eq, if_neg hne]
    exact hcell.count

theorem Inv.handleRxRsp (h : Inv s) (hfair : Fair s (.response rsp)) {c : Checker} (hc : s.checker.handleRxRsp rsp = some c) :
    Inv ⟨c, s.ledger.response rsp⟩ := by
  obtain ⟨⟨hanswers, hsettled⟩, hsmall, hlink⟩ := hfair
  unfold Checker.handleRxRsp at hc
  unfold Ledger.response at hsettled ⊢
  by_cases hack : rsp.opcode = retryAck
  · obtain ⟨q, hq⟩ := Option.isSome_iff_exists.1 (hanswers hack)
    have hzero : ¬rsp.opcode = 0 := by
      rw [hack]
      decide
    rw [if_pos hack, h.txn, hq] at hc
    rw [if_neg hzero, if_pos hack, hq] at hsettled ⊢
    cases hc
    exact (h.refused hq).checkCompleters hsettled
  rw [if_neg hack] at hc
  by_cases hgrant : rsp.opcode = pCrdGrant
  · have hzero : ¬rsp.opcode = 0 := by
      rw [hgrant]
      decide
    rw [if_pos hgrant] at hc
    rw [if_neg hzero, if_neg hack, if_pos hgrant] at hsettled ⊢
    cases hc
    exact (h.granted (hsmall hgrant)).checkCompleters hsettled
  rw [if_neg hgrant] at hc
  cases hc
  by_cases hzero : rsp.opcode = 0
  · rw [if_pos hzero] at hsettled ⊢
    exact (h.unanswered (hlink hzero)).checkCompleters hsettled
  · rw [if_neg hzero, if_neg hack, if_neg hgrant] at hsettled ⊢
    exact (h.answered rsp.txnID).checkCompleters hsettled

theorem Inv.handleRxDat (h : Inv s) {lCrdReturn : Bool} {txnID : BitVec 8} (hfair : Fair s (.data lCrdReturn txnID)) :
    Inv ⟨s.checker.handleRxDat txnID, s.ledger.data lCrdReturn txnID⟩ := by
  obtain ⟨hsettled, hlink⟩ := hfair
  cases lCrdReturn with
  | true => exact (h.unanswered (hlink rfl)).checkCompleters hsettled
  | false => exact (h.answered txnID).checkCompleters hsettled

end Responses

/-! ### Runs -/

theorem Inv.step {s s' : State} {a : Act} (h : Inv s) (hfair : Fair s a) (hs : step s a = some s') : Inv s' := by
  cases a with
  | request req k =>
    cases hs
    exact h.sampleRequest hfair
  | response rsp =>
    obtain ⟨c, hc, rfl⟩ := Option.map_eq_some_iff.1 hs
    exact h.handleRxRsp hfair hc
  | data lCrdReturn txnID =>
    cases hs
    exact h.handleRxDat hfair

/-- **The checker tracks the credits and the refused requests, and reports the errors that are due.** -/
theorem tracked_of_run {s : State} (h : Reach step Fair {} s) : Tracked s :=
  (h.invariant Inv.init fun hinv hfair hs => hinv.step hfair hs).tracked

/-- A request of node 1 to node 7. -/
def requestTo7 (opcode : BitVec 8) (allowRetry : Bool) : ReqFlit where
  qoS := 0
  tgtID := 7
  srcID := 1
  txnID := 1
  returnNID_StashNID := 0
  stashNIDValid_Endian := false
  returnTxnID := 0
  opcode := opcode
  size := 6
  address := 0x1000
  nonSecure := false
  likelyShared := false
  allowRetry := allowRetry
  order := 0
  pCrdType := 0
  allocate := false
  cacheable := false
  deviceMemory := false
  earlyWrAck := false
  snpAttr := false
  lpid := 0
  excl_SnoopMe := false
  expCompAck := false
  traceTag := false
  rsvdc := 0

def responseOf7 (opcode : BitVec 8) : RspFlit where
  qoS := 0
  tgtID := 1
  srcID := 7
  txnID := 1
  opcode := opcode
  respErr := 0
  resp := 0
  fwdState_DataPull := 0
  dbid := 0
  pCrdType := 0
  traceTag := false

/-- A request that is refused, gets a credit, and is issued again. -/
def reissued : List Act :=
  [.request (requestTo7 0x4 true) none, .response (responseOf7 retryAck), .response (responseOf7 pCrdGrant), .request (requestTo7 0x4 false) (some 0)]

set_option maxRecDepth 4096 in
theorem reissued_fair : RunOk step Fair {} reissued := by
  refine ⟨⟨by simp [Follows, requestTo7, isReqLCrdReturn, pCrdReturn], fun _ h => nomatch h⟩, ?_⟩
  intro s hs
  obtain rfl := Option.some.inj hs
  refine ⟨⟨⟨fun _ => ?_, fun _ node t => ?_⟩, ?_, ?_⟩, ?_⟩
  · rfl
  · exact Nat.zero_le _
  · exact fun h => absurd h (by decide)
  · exact fun h => absurd h (by decide)
  intro s hs
  obtain rfl := Option.some.inj hs
  refine ⟨⟨⟨fun h => absurd h (by decide), fun _ node t => ?_⟩, fun _ => by decide, fun h => absurd h (by decide)⟩, ?_⟩
  · change incr (fun _ _ => 0) 7 0 node t - 0 - 0 ≤ (Ledger.waiting _ node t).length
    rw [incr_eq]
    by_cases hcell : node = 7 ∧ t = 0
    · obtain ⟨rfl, rfl⟩ := hcell
      decide
    · rw [if_neg hcell]
      exact Nat.zero_le _
  intro s hs
  obtain rfl := Option.some.inj hs
  refine ⟨⟨.inr ⟨⟨7, 0, requestTo7 0x4 true⟩, rfl, rfl, by decide, by decide⟩, fun _ _ => ⟨by decide, fun _ => ?_, fun node t _ _ => rfl⟩⟩,
    fun _ _ => trivial⟩
  exact ⟨_, rfl, rfl⟩

theorem tracked_reissued : ∃ s, run step {} reissued = some s ∧ Tracked s := by
  obtain ⟨s, hrun⟩ : ∃ s, run step {} reissued = some s := ⟨_, rfl⟩
  exact ⟨s, hrun, tracked_of_run (Reach.refl.of_run reissued_fair hrun)⟩

/-- A PrefetchTgt is reported, which follows the protocol. -/
theorem not_tracked_prefetchTgt : ¬∀ s : State, Reach step Follows {} s → Tracked s := by
  intro h
  have hrun : run step {} [.request (requestTo7 prefetchTgt false) none] = some _ := rfl
  have hfollows : RunOk step Follows {} [.request (requestTo7 prefetchTgt false) none] := ⟨.inl rfl, fun _ _ => trivial⟩
  have herrors := (h _ (Reach.refl.of_run hfollows hrun)).errors
  revert herrors
  decide

end LibSystemCTLM.Chi.Retry
