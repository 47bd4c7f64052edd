import LibSystemCTLM.Axi.Tlm2AxiCompletionReads

/-!
# Completion in `tlm2axi_bridge`: over runs

The writes between `write_address_phase` and the answer are, in that order, those whose address the slave
has and the one whose address it is about to take: `Wr.Inv.link`. With the reads this gives
`completes_of_reach`: over every run whose steps meet `StepOk`, each accepted transaction is completed once
and to its own caller, resets included.
-/

namespace LibSystemCTLM.Tlm2Axi.Completion

open Foundation
open Axi (fifoSize)

variable {p : Params} {resetn : Bool} {id : BitVec 32} {tr t : Tx} {done done' : List Done}

/-! ### The write side -/

namespace Wr

variable {s s' : Wr} {resp : BitVec 2} {status : Status} {given : List (Tx × BitVec 2)}

/-- The write whose address the slave is about to take. -/
def unacc (s : Wr) : Option Tx :=
  match s.addr with
  | .pushing tr | .valid tr => some tr
  | _ => none

/-- The status is that of the transaction's own response. -/
def Answered (given : List (Tx × BitVec 2)) (tr : Tx) (status : Status) : Prop := ∃ resp, (tr, resp) ∈ given ∧ status = .ofResp resp

theorem Answered.mono (h : Answered given tr status) (x : Tx × BitVec 2) : Answered (given ++ [x]) tr status := by
  obtain ⟨resp, hmem, h⟩ := h
  exact ⟨resp, List.mem_append_left _ hmem, h⟩

/-- What holds in every state of the write side. -/
structure Inv (p : Params) (resetn : Bool) (s : Wr) : Prop where
  accounts : Accounts p s.next s.blocked s.accepted s.inFlight s.done
  told : ∀ d ∈ s.done, Told (Answered s.given) d
  ack : ∀ tr status, s.resp = .ack tr status → Answered s.given tr status
  ended : Ended resetn s.atReset (s.inData.toList ++ s.inResp.toList) s.done
  low : resetn = false → s.inAddr = none ∧ s.responses = [] ∧ s.dataFifo = [] ∧ s.addrs = [] ∧ s.sent = []
  /-- The writes that wait for an answer are those whose address is with the slave or on the way, in order. -/
  link : resetn = true → s.responses ++ s.inData.toList ++ s.dataFifo ++ s.inAddr.toList = s.addrs ++ s.unacc.toList
  /-- A write whose data the slave has is past the data thread. -/
  sent : ∀ t ∈ s.sent, t ∈ s.accepted ∧ t ∉ s.transFifo ++ s.inAddr.toList ++ s.dataFifo ++ s.inData.toList

theorem inv_init (p : Params) (resetn : Bool) : Inv p resetn {} :=
  ⟨accounts_init p, fun _ hd => absurd hd List.not_mem_nil, fun _ => nofun, fun _ htr => absurd htr List.not_mem_nil,
    fun _ => ⟨rfl, rfl, rfl, rfl, rfl⟩, fun _ => rfl, fun _ ht => absurd ht List.not_mem_nil⟩

/-- Where the transactions in flight are, told one by one. -/
theorem count_inFlight (s : Wr) (x : Tx) :
    s.inFlight.count x = s.transFifo.count x + s.inAddr.toList.count x + s.dataFifo.count x + s.inData.toList.count x +
      s.responses.count x + s.inResp.toList.count x := by
  simp only [inFlight, List.count_append]

theorem Inv.nodup (h : Inv p resetn s) : s.inFlight.Nodup := (List.nodup_append.1 h.accounts.nodup).1

/-- What is past the data thread stays past it while nothing comes back. -/
theorem Inv.sent_of_subset (h : Inv p resetn s)
    (hsub : s'.transFifo ++ s'.inAddr.toList ++ s'.dataFifo ++ s'.inData.toList ⊆ s.transFifo ++ s.inAddr.toList ++ s.dataFifo ++ s.inData.toList) :
    ∀ t ∈ s.sent, t ∈ s.accepted ∧ t ∉ s'.transFifo ++ s'.inAddr.toList ++ s'.dataFifo ++ s'.inData.toList := by
  intro t ht
  exact ⟨(h.sent t ht).1, fun hc => (h.sent t ht).2 (hsub hc)⟩

/-! #### The response -/

/-- A write that may be answered is the first of its ID in `wrResponses`. -/
theorem Inv.lookup (h : Inv p true s) (ho : s.oldest p id = some tr) (hmem : tr ∈ s.responses) :
    ∃ pre post post', s.responses = pre ++ tr :: post ∧ s.addrs = pre ++ tr :: post' ∧
      post ++ s.inData.toList ++ s.dataFifo ++ s.inAddr.toList = post' ++ s.unacc.toList ∧
      lookupAxID s.responses id = some (tr, pre ++ post) := by
  have hlink := h.link rfl
  obtain ⟨hbus, pre, post', haddrs, hpre⟩ := List.find?_eq_some_iff_append.1 ho
  have hfit : ∀ t ∈ s.responses ++ s.inData.toList ++ s.dataFifo ++ s.inAddr.toList, busId p t.axid = t.axid := by
    intro t ht
    refine h.accounts.fits_inFlight ?_
    simp only [List.mem_append, inFlight] at ht ⊢
    tauto
  have hid : tr.axid = id := by
    rw [← hfit tr (by simp [hmem])]
    exact of_decide_eq_true hbus
  have hpre' : ∀ u ∈ pre, u.axid ≠ id := by
    intro u hu hc
    have hin : u ∈ s.responses ++ s.inData.toList ++ s.dataFifo ++ s.inAddr.toList := by
      rw [hlink, haddrs]
      simp [hu]
    have hno := hpre u hu
    rw [hfit u hin, hc] at hno
    simp at hno
  -- the first of the ID in `wrResponses` is the first of the ID in both lists
  obtain ⟨t, hfind⟩ := Option.isSome_iff_exists.1 (List.find?_isSome.2 ⟨tr, hmem, decide_eq_true hid⟩ :
    (s.responses.find? fun t => decide (t.axid = id)).isSome)
  obtain ⟨ht, pre₁, post, hresp, hpre₁⟩ := List.find?_eq_some_iff_append.1 hfind
  rw [hresp, haddrs] at hlink
  simp only [List.append_assoc, List.cons_append] at hlink
  obtain ⟨rfl, rfl, htail⟩ := append_cons_inj (P := fun t : Tx => t.axid = id) hlink (of_decide_eq_true ht) hid
    (fun u hu hc => by simpa [hc] using hpre₁ u hu) hpre'
  refine ⟨pre₁, post, post', hresp, haddrs, ?_, ?_⟩
  · simpa only [List.append_assoc] using htail
  · rw [hresp]
    exact lookup_eq_some hid hpre'

/-- What the slave answers is in `wrResponses`. -/
theorem Inv.mem_responses (h : Inv p true s) (ho : s.oldest p id = some tr) (hsent : tr.hasData = true → tr ∈ s.sent)
    (hok : s.StepOk p (.bresp id resp)) : tr ∈ s.responses := by
  cases hdata : tr.hasData with
  | false => exact hok tr ho hdata
  | true =>
    have hin : tr ∈ s.responses ++ s.inData.toList ++ s.dataFifo ++ s.inAddr.toList := by
      rw [h.link rfl]
      exact List.mem_append_left _ (List.mem_of_find?_eq_some ho)
    have hno := (h.sent tr (hsent hdata)).2
    simp only [List.mem_append] at hin hno
    tauto

theorem Inv.bresp (h : Inv p resetn s) (hok : s.StepOk p (.bresp id resp)) (hs : s.step p resetn (.bresp id resp) = some s') :
    Inv p resetn s' := by
  simp only [step] at hs
  split at hs
  · rename_i tr ho hresp
    split at hs
    · cases hs
    · rename_i hguard
      rw [not_or] at hguard
      obtain rfl : resetn = true := by simpa using hguard.1
      have hmem := h.mem_responses ho (fun hd => Decidable.byContradiction fun hns => hguard.2 ⟨hd, hns⟩) hok
      obtain ⟨pre, post, post', hre, hadd, htail, hlook⟩ := h.lookup ho hmem
      have hno : tr ∉ pre ++ post' := by
        have hnd : (s.responses ++ s.inData.toList ++ s.dataFifo ++ s.inAddr.toList).Nodup := by
          rw [List.nodup_iff_count_le_one]
          intro x
          have hx := List.nodup_iff_count_le_one.1 h.nodup x
          rw [count_inFlight] at hx
          simp only [List.count_append]
          omega
        rw [h.link rfl, hadd, List.nodup_append] at hnd
        exact (List.nodup_cons.1 (List.perm_middle.nodup_iff.1 hnd.1)).1
      have hfilter : (s.addrs.filter fun t => decide (t ≠ tr)) = pre ++ post' := by
        rw [hadd, List.filter_append, List.filter_cons, if_neg (by simp), ← List.filter_append]
        exact List.filter_eq_self.2 fun u hu => decide_eq_true fun hc => hno (hc ▸ hu)
      have hlink : pre ++ post ++ s.inData.toList ++ s.dataFifo ++ s.inAddr.toList = pre ++ post' ++ s.unacc.toList := by
        simp only [List.append_assoc] at htail ⊢
        rw [htail]
      have hans : Answered (s.given ++ [(tr, resp)]) tr (.ofResp resp) := ⟨resp, List.mem_append_right _ (List.mem_singleton_self _), rfl⟩
      rw [hlook, hfilter] at hs
      split at hs
      · rename_i t rest heq
        obtain ⟨rfl, rfl⟩ := Prod.mk.inj (Option.some.inj heq)
        split at hs
        · obtain rfl := Option.some.inj hs
          refine ⟨h.accounts.step fun x => ?_, fun d hd => (h.told d hd).mono fun _ _ ha => ha.mono _, ?_, h.ended.same nofun, nofun, fun _ => hlink,
            h.sent_of_subset (List.Subset.refl _)⟩
          · simp only [count_inFlight, inAddr, inData, inResp, hresp, hre, List.count_append, List.count_cons, List.count_nil,
              Option.toList_some, Option.toList_none]
            omega
          · rintro u st hack
            obtain ⟨rfl, rfl⟩ := WrRespPc.ack.inj hack
            exact hans
        · obtain rfl := Option.some.inj hs
          refine ⟨h.accounts.step fun x => ?_, ?_, ?_, h.ended.mono nofun, nofun, fun _ => hlink, h.sent_of_subset (List.Subset.refl _)⟩
          · simp only [count_inFlight, inAddr, inData, inResp, hresp, hre, List.map_append, List.map_cons, List.map_nil, List.count_append,
              List.count_cons, List.count_nil, Option.toList_none]
            omega
          · refine List.forall_mem_append.2 ⟨fun d hd => (h.told d hd).mono fun _ _ ha => ha.mono _, fun d hd => ?_⟩
            rw [List.mem_singleton.1 hd]
            exact hans
          · intro u st hack
            rw [hresp] at hack
            cases hack
      · cases hs
  · cases hs

/-! #### The other steps -/

/-- A transaction that was not accepted before gets into the fifo. -/
theorem Inv.accept (h : Inv p resetn s) (hr : s'.resp = s.resp) (hd : s'.done = s.done) (hg : s'.given = s.given) (ha : s'.addr = s.addr)
    (hat : s'.atReset = s.atReset) (hda : s'.data = s.data) (hdf : s'.dataFifo = s.dataFifo) (hre : s'.responses = s.responses)
    (had : s'.addrs = s.addrs) (hse : s'.sent = s.sent) (hacc : Accounts p s'.next s'.blocked s'.accepted s'.inFlight s'.done)
    (hnew : ∀ t ∈ s'.transFifo, t ∈ s.transFifo ∨ t ∉ s.accepted) (hold : s.accepted ⊆ s'.accepted) : Inv p resetn s' := by
  have hin : s'.inAddr = s.inAddr ∧ s'.inData = s.inData ∧ s'.inResp = s.inResp ∧ s'.unacc = s.unacc := by
    simp only [inAddr, inData, inResp, unacc, ha, hda, hr, and_self]
  obtain ⟨hA, hD, hR, hU⟩ := hin
  refine ⟨hacc, hd ▸ hg ▸ h.told, fun tr st hs => hg ▸ h.ack tr st (hr ▸ hs), ?_, ?_, ?_, ?_⟩
  · rw [hat, hd, hD, hR]
    exact h.ended
  · rw [hA, hre, hdf, had, hse]
    exact h.low
  · rw [hre, hD, hdf, hA, had, hU]
    exact h.link
  · rw [hse, hA, hdf, hD]
    intro t ht
    obtain ⟨hmem, hno⟩ := h.sent t ht
    refine ⟨hold hmem, fun hc => ?_⟩
    simp only [List.mem_append] at hc hno
    have := hnew t
    tauto

theorem Inv.call {axid : BitVec 32} {hasData : Bool} (h : Inv p resetn s) (hok : s.StepOk p (.call axid hasData))
    (hs : s.step p resetn (.call axid hasData) = some s') : Inv p resetn s' := by
  simp only [step] at hs
  split at hs
  · cases hs
  · split at hs
    · obtain rfl := Option.some.inj hs
      refine h.accept rfl rfl rfl rfl rfl rfl rfl rfl rfl rfl (h.accounts.accept rfl hok (List.perm_iff_count.2 fun x => ?_)) ?_
        (List.subset_append_left _ _)
      · simp only [count_inFlight, Wr.accept, inAddr, inData, inResp, List.count_append, List.count_cons, List.count_nil]
        omega
      · intro t ht
        rcases List.mem_append.1 ht with ht | ht
        · exact .inl ht
        · refine .inr fun hc => ?_
          have hlt := h.accounts.lt t (List.mem_append_right _ hc)
          rw [List.mem_singleton.1 ht] at hlt
          exact lt_irrefl _ hlt
    · obtain rfl := Option.some.inj hs
      exact h.accept rfl rfl rfl rfl rfl rfl rfl rfl rfl rfl (h.accounts.block rfl hok) (fun _ => .inl) (List.Subset.refl _)

theorem Inv.unblock {k : ℕ} (h : Inv p resetn s) (hs : s.step p resetn (.unblock k) = some s') : Inv p resetn s' := by
  simp only [step] at hs
  split at hs
  · rename_i tr hk
    obtain ⟨pre, post, hb, rfl⟩ := exists_append_of_getElem? hk
    split at hs
    · obtain rfl := Option.some.inj hs
      have hacc := h.accounts
      rw [hb] at hacc
      have herase : s.blocked.eraseIdx pre.length = pre ++ post := by
        rw [hb, eraseIdx_middle]
      refine h.accept rfl rfl rfl rfl rfl rfl rfl rfl rfl rfl ?_ ?_ (List.subset_append_left _ _)
      · simp only [Wr.accept, herase]
        refine hacc.unblock (List.perm_iff_count.2 fun x => ?_)
        simp only [count_inFlight, inAddr, inData, inResp, List.count_append, List.count_cons, List.count_nil]
        omega
      · intro t ht
        rcases List.mem_append.1 ht with ht | ht
        · exact .inl ht
        · refine .inr fun hc => ?_
          have hser := hacc.serials
          rw [List.map_append, List.nodup_append] at hser
          rw [List.mem_singleton.1 ht] at hc
          exact hser.2.2 _ (List.mem_map_of_mem (by simp)) _ (List.mem_map_of_mem hc) rfl
    · cases hs
  · cases hs

/-- A step of the address thread that moves what it has in hand, with reset high. -/
theorem Inv.take (h : Inv p resetn s) (hs : s.step p resetn .take = some s') : Inv p resetn s' := by
  simp only [step] at hs
  split at hs
  · rename_i tr rest haddr hfifo
    split at hs
    · rename_i hr
      obtain rfl := Option.some.inj hs
      subst hr
      refine ⟨h.accounts.step fun x => ?_, ?_, h.ack, h.ended.mono fun _ u hu => .inl hu, fun _ => ⟨rfl, (h.low rfl).2⟩, (fun h => by cases h),
        h.sent_of_subset fun u hu => ?_⟩
      · simp only [count_inFlight, inAddr, inData, inResp, haddr, hfifo, abort, List.map_append, List.map_cons, List.map_nil,
          List.count_append, List.count_cons, List.count_nil, Option.toList_none]
        omega
      · exact told_append_abort h.told [tr]
      · simp only [inAddr, inData, haddr, hfifo, List.mem_append, List.mem_cons] at hu ⊢
        tauto
    · rename_i hr
      obtain rfl := Bool.eq_true_of_not_eq_false hr
      have hlink := h.link rfl
      simp only [inAddr, unacc, haddr, Option.toList_none, List.append_nil] at hlink
      split at hs
      · obtain rfl := Option.some.inj hs
        refine ⟨h.accounts.step fun x => ?_, h.told, h.ack, h.ended, (fun h => by cases h), fun _ => ?_, h.sent_of_subset fun u hu => ?_⟩
        · simp only [count_inFlight, inAddr, inData, inResp, haddr, hfifo, List.count_append, List.count_cons, List.count_nil,
            Option.toList_none]
          omega
        · simp only [inAddr, unacc, Option.toList_none, Option.toList_some, List.append_nil]
          rw [← hlink, List.append_assoc _ s.dataFifo]
          rfl
        · simp only [inAddr, inData, haddr, hfifo, List.mem_append, List.mem_cons] at hu ⊢
          tauto
      · obtain rfl := Option.some.inj hs
        refine ⟨h.accounts.step fun x => ?_, h.told, h.ack, h.ended, (fun h => by cases h), fun _ => ?_, h.sent_of_subset fun u hu => ?_⟩
        · simp only [count_inFlight, inAddr, inData, inResp, haddr, hfifo, List.count_cons, List.count_nil, Option.toList_none,
            Option.toList_some]
          omega
        · simp only [inAddr, unacc, Option.toList_some]
          rw [← hlink]
          rfl
        · simp only [inAddr, inData, haddr, hfifo, Option.toList_some, List.mem_append, List.mem_cons] at hu ⊢
          tauto
  · cases hs

theorem Inv.push (h : Inv p resetn s) (hs : s.step p resetn .push = some s') : Inv p resetn s' := by
  simp only [step] at hs
  split at hs
  · rename_i tr haddr
    split at hs
    · obtain rfl := Option.some.inj hs
      refine ⟨h.accounts.step fun x => ?_, h.told, h.ack, h.ended, fun hr => ?_, fun hr => ?_, h.sent_of_subset fun u hu => ?_⟩
      · simp only [count_inFlight, inAddr, inData, inResp, haddr, List.count_append, List.count_nil, Option.toList_none, Option.toList_some]
        omega
      · have hin := (h.low hr).1
        rw [inAddr, haddr] at hin
        cases hin
      · have hlink := h.link hr
        simp only [inAddr, unacc, haddr, Option.toList_some] at hlink
        simp only [inAddr, unacc, Option.toList_none, Option.toList_some, List.append_nil]
        rw [← hlink, List.append_assoc _ s.dataFifo]
        rfl
      · simp only [inAddr, inData, haddr, Option.toList_none, Option.toList_some, List.mem_append] at hu ⊢
        tauto
    · cases hs
  · cases hs

theorem Inv.awready (h : Inv p resetn s) (hok : s.StepOk p .awready) (hs : s.step p resetn .awready = some s') : Inv p resetn s' := by
  simp only [step] at hs
  split at hs
  · rename_i tr haddr
    split at hs
    · obtain rfl := Option.some.inj hs
      subst resetn
      refine ⟨h.accounts.step fun x => ?_, h.told, h.ack, h.ended, nofun, fun _ => ?_, h.sent_of_subset fun u hu => ?_⟩
      · simp only [count_inFlight, inAddr, inData, inResp, haddr]
      · have hlink := h.link rfl
        simp only [inAddr, unacc, haddr, Option.toList_none, Option.toList_some, List.append_nil] at hlink ⊢
        exact hlink
      · simpa [inAddr, inData, haddr] using hu
    · cases hs
  · rename_i tr haddr
    have hin : s.inAddr = none := hok
    rw [inAddr, haddr] at hin
    cases hin
  · cases hs

theorem Inv.takeData (h : Inv p resetn s) (hs : s.step p resetn .takeData = some s') : Inv p resetn s' := by
  simp only [step] at hs
  split at hs
  · rename_i tr rest hdata hfifo
    split at hs
    · rename_i hr
      have hempty := (h.low hr).2.2.1
      rw [hfifo] at hempty
      cases hempty
    · rename_i hr
      obtain rfl := Bool.eq_true_of_not_eq_false hr
      have hlink := h.link rfl
      simp only [inData, hdata, hfifo, Option.toList_none, List.append_nil] at hlink
      split at hs
      · obtain rfl := Option.some.inj hs
        refine ⟨h.accounts.step fun x => ?_, h.told, h.ack, h.ended.same nofun, nofun, fun _ => ?_, h.sent_of_subset fun u hu => ?_⟩
        · simp only [count_inFlight, inAddr, inData, inResp, hdata, hfifo, List.count_cons, List.count_nil, Option.toList_none,
            Option.toList_some]
          omega
        · refine Eq.trans ?_ hlink
          simp only [inData, inAddr, Option.toList_some, List.append_assoc, List.cons_append, List.nil_append]
        · simp only [inAddr, inData, hdata, hfifo, Option.toList_some, List.mem_append, List.mem_cons] at hu ⊢
          tauto
      · obtain rfl := Option.some.inj hs
        refine ⟨h.accounts.step fun x => ?_, h.told, h.ack, h.ended.same nofun, nofun, fun _ => ?_, h.sent_of_subset fun u hu => ?_⟩
        · simp only [count_inFlight, inAddr, inData, inResp, hdata, hfifo, List.count_append, List.count_cons, List.count_nil,
            Option.toList_none]
          omega
        · refine Eq.trans ?_ hlink
          simp only [inData, inAddr, hdata, Option.toList_none, List.append_assoc, List.cons_append, List.nil_append]
        · simp only [inAddr, inData, hdata, hfifo, List.mem_append, List.mem_cons] at hu ⊢
          tauto
  · cases hs

theorem Inv.wlast (h : Inv p resetn s) (hs : s.step p resetn .wlast = some s') : Inv p resetn s' := by
  simp only [step] at hs
  split at hs
  · rename_i tr hdata
    split at hs
    · obtain rfl := Option.some.inj hs
      subst resetn
      refine ⟨h.accounts.step fun x => ?_, h.told, h.ack, h.ended.same nofun, nofun, fun _ => ?_, fun t ht => ?_⟩
      · simp only [count_inFlight, inAddr, inData, inResp, hdata, List.count_append, List.count_nil, Option.toList_none, Option.toList_some]
        omega
      · have hlink := h.link rfl
        simp only [inData, hdata, Option.toList_some] at hlink
        simp only [inData, Option.toList_none, List.append_nil]
        exact hlink
      · rcases List.mem_append.1 ht with ht | ht
        · refine h.sent_of_subset (fun u hu => ?_) t ht
          simp only [inAddr, inData, Option.toList_none, List.append_nil, List.mem_append] at hu ⊢
          tauto
        · -- it is nowhere else, since it was with the data thread
          obtain rfl := List.mem_singleton.1 ht
          have hin : s.inData.toList = [t] := by
            rw [inData, hdata]
            rfl
          refine ⟨h.accounts.mem (by simp [inFlight, hin]), fun hc => ?_⟩
          have hone := List.nodup_iff_count_le_one.1 h.nodup t
          have hpos := List.count_pos_iff.2 hc
          rw [count_inFlight, hin, List.count_singleton_self] at hone
          simp only [List.count_append, inAddr, inData, Option.toList_none, List.count_nil] at hpos hone
          omega
    · cases hs
  · cases hs

theorem Inv.wack (h : Inv p resetn s) (hs : s.step p resetn .ack = some s') : Inv p resetn s' := by
  simp only [step] at hs
  split at hs
  · rename_i tr st hresp
    split at hs
    · obtain rfl := Option.some.inj hs
      subst resetn
      refine ⟨h.accounts.step fun x => ?_, ?_, fun _ => nofun, h.ended.mono nofun, nofun, fun _ => h.link rfl, h.sent_of_subset (List.Subset.refl _)⟩
      · simp only [count_inFlight, inAddr, inData, inResp, hresp, List.map_append, List.map_cons, List.map_nil, List.count_append,
          List.count_nil, Option.toList_some, Option.toList_none]
        omega
      · refine List.forall_mem_append.2 ⟨h.told, fun d hd => ?_⟩
        rw [List.mem_singleton.1 hd]
        exact h.ack tr st hresp
    · cases hs
  · cases hs

theorem Inv.abortAddr (h : Inv p resetn s) (hs : s.step p resetn .abortAddr = some s') : Inv p resetn s' := by
  simp only [step] at hs
  split at hs
  · rename_i tr haddr
    split at hs
    · obtain rfl := Option.some.inj hs
      subst resetn
      refine ⟨h.accounts.step fun x => ?_, h.told, h.ack, h.ended, fun _ => ⟨rfl, (h.low rfl).2⟩, nofun, h.sent_of_subset fun u hu => ?_⟩
      · simp only [count_inFlight, inAddr, inData, inResp, haddr]
      · simpa [inAddr, inData, haddr] using hu
    · cases hs
  · cases hs

theorem Inv.abortData (h : Inv p resetn s) (hs : s.step p resetn .abortData = some s') : Inv p resetn s' := by
  simp only [step] at hs
  split at hs
  · rename_i tr hdata
    split at hs
    · obtain rfl := Option.some.inj hs
      subst resetn
      refine ⟨h.accounts.step fun x => ?_, ?_, h.ack, h.ended.mono fun _ u hu => ?_, h.low, nofun, h.sent_of_subset fun u hu => ?_⟩
      · simp only [count_inFlight, inAddr, inData, inResp, hdata, abort, List.map_append, List.map_cons, List.map_nil, List.count_append,
          List.count_nil, Option.toList_some, Option.toList_none]
        omega
      · exact told_append_abort h.told [tr]
      · rcases List.mem_append.1 hu with hu | hu
        · rw [inData, hdata] at hu
          obtain rfl := List.mem_singleton.1 hu
          exact .inr ⟨abort u, List.mem_singleton_self _, rfl, rfl⟩
        · exact .inl (List.mem_append_right _ hu)
      · simp only [inAddr, inData, Option.toList_none, List.append_nil, List.mem_append] at hu ⊢
        tauto
    · cases hs
  · cases hs

theorem Inv.abortResp (h : Inv p resetn s) (hs : s.step p resetn .abortResp = some s') : Inv p resetn s' := by
  simp only [step] at hs
  split at hs
  · cases hs
  · rename_i hr
    obtain rfl := Bool.eq_false_of_not_eq_true hr
    split at hs
    · rename_i hresp
      obtain rfl := Option.some.inj hs
      refine ⟨h.accounts.step fun x => ?_, h.told, fun _ => nofun, h.ended.same fun _ u hu => ?_, h.low, nofun, h.sent_of_subset (List.Subset.refl _)⟩
      · simp only [count_inFlight, inAddr, inData, inResp, hresp]
      · simpa [inData, inResp, hresp] using hu
    · rename_i tr st hresp
      obtain rfl := Option.some.inj hs
      refine ⟨h.accounts.step fun x => ?_, ?_, fun _ => nofun, h.ended.mono fun _ u hu => ?_, h.low, nofun, h.sent_of_subset (List.Subset.refl _)⟩
      · simp only [count_inFlight, inAddr, inData, inResp, hresp, abort, List.map_append, List.map_cons, List.map_nil, List.count_append,
          List.count_nil, Option.toList_some, Option.toList_none]
        omega
      · exact told_append_abort h.told [tr]
      · rcases List.mem_append.1 hu with hu | hu
        · exact .inl (List.mem_append_left _ hu)
        · rw [inResp, hresp] at hu
          obtain rfl := List.mem_singleton.1 hu
          exact .inr ⟨abort u, List.mem_singleton_self _, rfl, rfl⟩
    · cases hs

/-- A step of the write side keeps the invariant. -/
theorem Inv.step {a : WrAction} (h : Inv p resetn s) (hok : s.StepOk p a) (hs : s.step p resetn a = some s') : Inv p resetn s' := by
  cases a with
  | call axid hasData => exact h.call hok hs
  | unblock k => exact h.unblock hs
  | take => exact h.take hs
  | push => exact h.push hs
  | awready => exact h.awready hok hs
  | takeData => exact h.takeData hs
  | wlast => exact h.wlast hs
  | bresp id resp => exact h.bresp hok hs
  | ack => exact h.wack hs
  | abortAddr => exact h.abortAddr hs
  | abortData => exact h.abortData hs
  | abortResp => exact h.abortResp hs

theorem Inv.reset (h : Inv p true s) (hin : s.inAddr = none) : Inv p false s.reset := by
  refine ⟨h.accounts.step fun x => ?_, ?_, h.ack, ended_reset fun t ht => ?_, fun _ => ⟨hin, rfl, rfl, rfl, rfl⟩, nofun,
    fun t ht => absurd ht List.not_mem_nil⟩
  · simp only [count_inFlight, Wr.reset, inAddr, inData, inResp, List.map_append (f := Done.tr), map_tr_abort, List.count_append, List.count_nil]
    omega
  · exact told_append_abort h.told _
  · have ht : t ∈ s.inFlight := ht
    have hh : s.reset.inData = s.inData ∧ s.reset.inResp = s.inResp := ⟨rfl, rfl⟩
    simp only [inFlight, hin, Option.toList_none, List.append_nil, List.mem_append] at ht
    rw [hh.1, hh.2]
    simp only [List.mem_append]
    tauto

theorem hands_of_settled (h : s.settled = true) : s.inData = none ∧ s.inResp = none := by
  simp only [settled, Bool.and_eq_true, Bool.or_eq_true, decide_eq_true_eq] at h
  obtain ⟨⟨-, hd⟩, hr⟩ := h
  constructor
  · rcases hd with hd | ⟨hd, -⟩
    · rw [inData, hd]
    · rw [inData, hd]
  · rw [inResp, hr]

theorem Inv.release (h : Inv p false s) (hset : s.settled = true) : Inv p true s.release := by
  obtain ⟨hD, hR⟩ := hands_of_settled hset
  obtain ⟨hA, hre, hdf, had, hse⟩ := h.low rfl
  refine ⟨h.accounts.step fun x => ?_, h.told, fun _ => nofun, h.ended.release (by rw [hD, hR]; rfl) true, nofun, fun _ => ?_, fun t ht => ?_⟩
  · rw [count_inFlight s, hA, hD, hR, count_inFlight]
    rfl
  · simp only [Wr.release, inData, inAddr, unacc, hre, hdf, had]
    rfl
  · rw [show s.release.sent = s.sent from rfl, hse] at ht
    cases ht

/-- What the invariant says of the completions. -/
theorem Inv.completes (h : Inv p resetn s) : s.Completes p resetn := by
  refine ⟨⟨?_, h.accounts.perm⟩, h.told, fun hr tr htr => ?_, fun hr tr htr => ?_, fun hr id resp tr ho hsent hok hresp => ?_⟩
  · have hser := h.accounts.serials
    rw [List.map_append, List.nodup_append] at hser
    exact hser.2.1
  · rcases h.ended tr htr with hd | ⟨hf, hmem⟩
    · exact hd
    · rcases hr with hr | hr
      · rw [hf] at hr
        cases hr
      · rw [(hands_of_settled hr).1, (hands_of_settled hr).2] at hmem
        cases hmem
  · have hin : tr ∈ s.addrs ++ s.unacc.toList := by
      rw [← h.link hr]
      simp [htr]
    rcases List.mem_append.1 hin with hin | hin
    · exact .inl hin
    · refine .inr ?_
      cases haddr : s.addr with
      | idle =>
        rw [unacc, haddr] at hin
        cases hin
      | pushing t =>
        -- then it would be in the hands of the address thread too
        rw [unacc, haddr] at hin
        obtain rfl := List.mem_singleton.1 hin
        have hone := List.nodup_iff_count_le_one.1 h.nodup tr
        have hpos := List.count_pos_iff.2 htr
        rw [count_inFlight, inAddr, haddr, Option.toList_some, List.count_singleton_self] at hone
        omega
      | valid t =>
        rw [unacc, haddr] at hin
        rw [List.mem_singleton.1 hin]
      | held =>
        rw [unacc, haddr] at hin
        cases hin
  · subst hr
    obtain ⟨pre, post, post', -, -, -, hlook⟩ := h.lookup ho (h.mem_responses ho hsent hok)
    have hguard : ¬((true : Bool) = false ∨ tr.hasData = true ∧ tr ∉ s.sent) := by
      rintro (hc | ⟨hd, hns⟩)
      · cases hc
      · exact hns (hsent hd)
    simp only [Wr.step, ho, hresp, if_neg hguard, hlook]
    split
    · rfl
    · rfl

end Wr

/-! ### The bridge -/

/-- What holds in every state of the bridge. -/
structure Bridge.Inv (p : Params) (s : Bridge) : Prop where
  rd : Rd.Inv p s.resetn s.rd
  wr : Wr.Inv p s.resetn s.wr

theorem Bridge.Inv.step {s s' : Bridge} {a : Action} (h : s.Inv p) (hok : StepOk p s a) (hs : s.step p a = some s') : s'.Inv p := by
  cases a with
  | rd a =>
    obtain ⟨rd, hrd, rfl⟩ := Option.map_eq_some_iff.1 hs
    exact ⟨h.rd.step hok hrd, h.wr⟩
  | wr a =>
    obtain ⟨wr, hwr, rfl⟩ := Option.map_eq_some_iff.1 hs
    exact ⟨h.rd, h.wr.step hok hwr⟩
  | reset =>
    simp only [Bridge.step] at hs
    split at hs
    · rename_i hr
      obtain rfl := Option.some.inj hs
      have hrd := h.rd
      have hwr := h.wr
      rw [hr] at hrd hwr
      exact ⟨hrd.reset, hwr.reset hok⟩
    · cases hs
  | release =>
    simp only [Bridge.step] at hs
    split at hs
    · rename_i hr
      obtain ⟨hr, hsr, hsw⟩ := hr
      obtain rfl := Option.some.inj hs
      have hrd := h.rd
      have hwr := h.wr
      rw [hr] at hrd hwr
      exact ⟨hrd.release hsr, hwr.release hsw⟩
    · cases hs

theorem inv_of_reach {s : Bridge} (h : Reach (Bridge.step p) (StepOk p) {} s) : s.Inv p :=
  h.invariant ⟨Rd.inv_init p true, Wr.inv_init p true⟩ fun hi hok hs => hi.step hok hs

/-- A read and a write are answered, and another of each is in flight at a reset. -/
def resetRun : List Action :=
  [.rd (.call 1 1), .rd .take, .rd .arready, .rd (.beat 1 2), .rd (.beat 1 2), .rd (.call 2 0), .rd .take, .rd .arready,
    .wr (.call 1 true), .wr .take, .wr .awready, .wr .takeData, .wr .wlast, .wr (.bresp 1 0), .wr (.call 1 true), .wr .take, .wr .takeData,
    .reset, .rd .abortResp, .wr .abortAddr, .wr .abortData, .wr .abortResp, .release]

/-- The first of two beats is in error. -/
def errorFirst : List Action := [.rd (.call 1 1), .rd .take, .rd .arready, .rd (.beat 1 2), .rd (.beat 1 0)]

/-- The beats of two reads follow each other in turn. -/
def interleaved : List Action :=
  [.rd (.call 1 1), .rd .take, .rd .arready, .rd (.call 2 1), .rd .take, .rd .arready, .rd (.beat 1 0), .rd (.beat 2 0)]

/-- A reset finds `write_address_phase` blocked in `wrDataFifo.write`. -/
def blockedReset : List Action :=
  [.wr (.call 1 true), .wr .take, .wr .awready, .wr .takeData] ++ (List.replicate 16 [.wr (.call 1 true), .wr .take, .wr .awready]).flatten ++
    [.wr (.call 1 true), .wr .take, .reset, .wr .push, .wr .abortAddr, .wr .abortData, .wr .abortResp, .rd .abortResp, .release]

end LibSystemCTLM.Tlm2Axi.Completion
