import LibSystemCTLM.Axi.Tlm2AxiCompletion
import LibSystemCTLM.Foundation.Splits

/-!
# The reads of `tlm2axi_bridge`: each is completed once

`Accounts` and `Ended` are what the two sides have in common: where each accepted transaction is, and that
what a reset finds is aborted. `Rd.Inv` adds that the slave owes the reads of `rdResponses`, in that order,
with the one that `read_resp_phase` has in hand in its place between them. Every step keeps it
(`Rd.Inv.step`, `Rd.Inv.reset`, `Rd.Inv.release`), and it says what `Rd.Completes` asks (`Rd.Inv.completes`).
-/

namespace LibSystemCTLM.Tlm2Axi.Completion

open Foundation
open Axi (fifoSize)

variable {p : Params} {resetn : Bool} {id : BitVec 32} {tr t : Tx} {vec pre post : List Tx} {done done' : List Done}

/-! ### IDs -/

/-- An ID that fits on the bus comes back as it is. -/
theorem busId_eq {axid : BitVec 32} (h : axid.toNat < 2 ^ p.idWidth) : busId p axid = axid := by
  rw [busId, Nat.mod_eq_of_lt h, BitVec.ofNat_toNat, BitVec.setWidth_eq]

/-- The first transaction of an ID is found and taken out. -/
theorem lookup_eq_some (hid : tr.axid = id) (hpre : ∀ u ∈ pre, u.axid ≠ id) :
    lookupAxID (pre ++ tr :: post) id = some (tr, pre ++ post) := by
  have hfind : (pre ++ tr :: post).find? (fun t => decide (t.axid = id)) = some tr :=
    List.find?_eq_some_iff_append.2 ⟨decide_eq_true hid, pre, post, rfl, fun u hu => by simp [hpre u hu]⟩
  have hpos : decide (tr.axid = id) = true := decide_eq_true hid
  rw [lookupAxID, hfind, Option.map_some, List.eraseP_append_right _ (fun u hu => by simp [hpre u hu])]
  simp only [List.eraseP_cons, hpos, cond_true]

/-! ### Accounts -/

/-- Every accepted transaction is in flight or has been completed, and the calls are told apart. -/
structure Accounts (p : Params) (next : ℕ) (blocked accepted inFlight : List Tx) (done : List Done) : Prop where
  serials : ((blocked ++ accepted).map Tx.serial).Nodup
  lt : ∀ t ∈ blocked ++ accepted, t.serial < next
  fits : ∀ t ∈ blocked ++ accepted, t.axid.toNat < 2 ^ p.idWidth
  perm : accepted.Perm (inFlight ++ done.map Done.tr)

section

variable {next : ℕ} {blocked accepted inFlight inFlight' : List Tx}

theorem accounts_init (p : Params) : Accounts p 0 [] [] [] [] :=
  ⟨List.nodup_nil, fun _ h => absurd h List.not_mem_nil, fun _ h => absurd h List.not_mem_nil, .refl _⟩

/-- No transaction is in flight twice, or after its completion. -/
theorem Accounts.nodup (h : Accounts p next blocked accepted inFlight done) : (inFlight ++ done.map Done.tr).Nodup := by
  have hser := h.serials
  rw [List.map_append, List.nodup_append] at hser
  exact h.perm.nodup_iff.1 (List.Nodup.of_map _ hser.2.1)

theorem Accounts.mem (h : Accounts p next blocked accepted inFlight done) (ht : t ∈ inFlight) : t ∈ accepted :=
  h.perm.symm.subset (List.mem_append_left _ ht)

theorem Accounts.fits_inFlight (h : Accounts p next blocked accepted inFlight done) (ht : t ∈ inFlight) : busId p t.axid = t.axid :=
  busId_eq (h.fits t (List.mem_append_right _ (h.mem ht)))

/-- Transactions move on, or are completed. -/
theorem Accounts.step (h : Accounts p next blocked accepted inFlight done)
    (hc : ∀ x, inFlight'.count x + (done'.map Done.tr).count x = inFlight.count x + (done.map Done.tr).count x) :
    Accounts p next blocked accepted inFlight' done' := by
  refine ⟨h.serials, h.lt, h.fits, h.perm.trans (List.perm_iff_count.2 fun x => ?_)⟩
  rw [List.count_append, List.count_append]
  exact (hc x).symm

theorem Accounts.accept (h : Accounts p next blocked accepted inFlight done) (hs : tr.serial = next) (hfit : tr.axid.toNat < 2 ^ p.idWidth)
    (hp : inFlight'.Perm (tr :: inFlight)) : Accounts p (next + 1) blocked (accepted ++ [tr]) inFlight' done := by
  have hall : (blocked ++ (accepted ++ [tr])).Perm (tr :: (blocked ++ accepted)) := by
    rw [← List.append_assoc]
    exact List.perm_append_singleton _ _
  refine ⟨(hall.map Tx.serial).nodup_iff.2 (List.nodup_cons.2 ⟨?_, h.serials⟩), fun u hu => ?_, fun u hu => ?_, ?_⟩
  · intro hc
    obtain ⟨u, hu, heq⟩ := List.mem_map.1 hc
    have := h.lt u hu
    omega
  · rcases List.mem_cons.1 (hall.subset hu) with rfl | hu
    · omega
    · exact Nat.lt_succ_of_lt (h.lt u hu)
  · rcases List.mem_cons.1 (hall.subset hu) with rfl | hu
    · exact hfit
    · exact h.fits u hu
  · exact (List.perm_append_singleton _ _).trans ((h.perm.cons tr).trans (hp.symm.append_right _))

theorem Accounts.block (h : Accounts p next blocked accepted inFlight done) (hs : tr.serial = next) (hfit : tr.axid.toNat < 2 ^ p.idWidth) :
    Accounts p (next + 1) (blocked ++ [tr]) accepted inFlight done := by
  have hall : (blocked ++ [tr] ++ accepted).Perm (tr :: (blocked ++ accepted)) := (List.perm_append_singleton _ _).append_right _
  refine ⟨(hall.map Tx.serial).nodup_iff.2 (List.nodup_cons.2 ⟨?_, h.serials⟩), fun u hu => ?_, fun u hu => ?_, h.perm⟩
  · intro hc
    obtain ⟨u, hu, heq⟩ := List.mem_map.1 hc
    have := h.lt u hu
    omega
  · rcases List.mem_cons.1 (hall.subset hu) with rfl | hu
    · omega
    · exact Nat.lt_succ_of_lt (h.lt u hu)
  · rcases List.mem_cons.1 (hall.subset hu) with rfl | hu
    · exact hfit
    · exact h.fits u hu

theorem Accounts.unblock (h : Accounts p next (pre ++ tr :: post) accepted inFlight done) (hp : inFlight'.Perm (tr :: inFlight)) :
    Accounts p next (pre ++ post) (accepted ++ [tr]) inFlight' done := by
  have hall : (pre ++ post ++ (accepted ++ [tr])).Perm (pre ++ tr :: post ++ accepted) := by
    rw [← List.append_assoc]
    refine (List.perm_append_singleton _ _).trans ?_
    exact (List.perm_middle.symm.append_right _)
  exact ⟨(hall.map Tx.serial).nodup_iff.2 h.serials, fun u hu => h.lt u (hall.subset hu), fun u hu => h.fits u (hall.subset hu),
    (List.perm_append_singleton _ _).trans ((h.perm.cons tr).trans (hp.symm.append_right _))⟩

end

/-! ### What the callers are told -/

/-- The caller is told the truth. -/
def Told (answered : Tx → Status → Prop) (d : Done) : Prop :=
  if d.aborted = true then d.status = .genericError else answered d.tr d.status

theorem Told.mono {answered answered' : Tx → Status → Prop} {d : Done} (h : Told answered d)
    (hmono : ∀ tr status, answered tr status → answered' tr status) : Told answered' d := by
  unfold Told at h ⊢
  split
  · rwa [if_pos ‹_›] at h
  · rw [if_neg ‹_›] at h
    exact hmono _ _ h

theorem told_append_abort {answered : Tx → Status → Prop} (h : ∀ d ∈ done, Told answered d) (l : List Tx) :
    ∀ d ∈ done ++ l.map abort, Told answered d := by
  refine List.forall_mem_append.2 ⟨h, fun d hd => ?_⟩
  obtain ⟨t, -, rfl⟩ := List.mem_map.1 hd
  rfl

theorem map_tr_abort (l : List Tx) : (l.map abort).map Done.tr = l := by
  rw [List.map_map]
  exact List.map_id l

/-! ### What a reset ends -/

/-- What was in flight at a reset has been aborted, or a thread is about to. -/
def Ended (resetn : Bool) (atReset hands : List Tx) (done : List Done) : Prop :=
  ∀ tr ∈ atReset, (∃ d ∈ done, d.tr = tr ∧ d.aborted = true) ∨ resetn = false ∧ tr ∈ hands

variable {atReset hands hands' : List Tx}

/-- What leaves the hands of the threads is aborted. -/
theorem Ended.mono (h : Ended resetn atReset hands done) {l : List Done}
    (hh : resetn = false → ∀ tr ∈ hands, tr ∈ hands' ∨ ∃ d ∈ l, d.tr = tr ∧ d.aborted = true) : Ended resetn atReset hands' (done ++ l) := by
  intro tr htr
  rcases h tr htr with ⟨d, hd, hdtr, hab⟩ | ⟨hr, hmem⟩
  · exact .inl ⟨d, List.mem_append_left _ hd, hdtr, hab⟩
  · rcases hh hr tr hmem with hmem | ⟨d, hd, hdtr, hab⟩
    · exact .inr ⟨hr, hmem⟩
    · exact .inl ⟨d, List.mem_append_right _ hd, hdtr, hab⟩

theorem Ended.same (h : Ended resetn atReset hands done) (hh : resetn = false → ∀ tr ∈ hands, tr ∈ hands') : Ended resetn atReset hands' done := by
  have hm : Ended resetn atReset hands' (done ++ []) := h.mono fun hr tr htr => .inl (hh hr tr htr)
  rwa [List.append_nil] at hm

/-- The `reset` thread aborts the lists. -/
theorem ended_reset {lists inFlight : List Tx} (h : ∀ tr ∈ inFlight, tr ∈ lists ∨ tr ∈ hands) :
    Ended false inFlight hands (done ++ lists.map abort) := by
  intro tr htr
  rcases h tr htr with hmem | hmem
  · exact .inl ⟨abort tr, List.mem_append_right _ (List.mem_map_of_mem hmem), rfl, rfl⟩
  · exact .inr ⟨rfl, hmem⟩

/-- After it, all of that has been aborted. -/
theorem Ended.release (h : Ended resetn atReset hands done) (hh : hands = []) (resetn' : Bool) : Ended resetn' atReset hands' done := by
  intro tr htr
  rcases h tr htr with hd | ⟨-, hmem⟩
  · exact .inl hd
  · rw [hh] at hmem
    cases hmem

/-! ### The read side -/

theorem Status.ofResp_eq_ok {resp : BitVec 2} : Status.ofResp resp = .ok ↔ isError resp = false := by
  revert resp
  decide

namespace Rd

variable {s s' : Rd} {e : Owed} {l₁ l₂ : List Tx} {left : ℕ} {rresp : BitVec 2} {status : Status} {given : List (Tx × List (BitVec 2))}

/-- A read of which the slave has given nothing. -/
def fresh (tr : Tx) : Owed := { tr := tr, left := tr.arlen + 1 }

/-- The status is that of the transaction's own beats, of which all have come. -/
def Answered (given : List (Tx × List (BitVec 2))) (tr : Tx) (status : Status) : Prop :=
  ∃ beats, (tr, beats) ∈ given ∧ beats.length = tr.arlen + 1 ∧ (status = .ok ↔ ∀ r ∈ beats, isError r = false)

theorem Answered.mono (h : Answered given tr status) (x : Tx × List (BitVec 2)) : Answered (given ++ [x]) tr status := by
  obtain ⟨beats, hmem, h⟩ := h
  exact ⟨beats, List.mem_append_left _ hmem, h⟩

/-- The reads the slave owes are those of `rdResponses`, and in its place between them the one in hand. -/
structure Link (s : Rd) (l₁ l₂ : List Tx) (cur : List Owed) : Prop where
  owed : s.owed = l₁.map fresh ++ cur ++ l₂.map fresh
  responses : s.responses = l₁ ++ l₂
  burst : ∀ tr left, s.resp = .burst tr left → ∃ sent, cur = [⟨tr, left, sent⟩] ∧ sent.length + left = tr.arlen + 1 ∧ 0 < left
  rest : (∀ tr left, s.resp ≠ .burst tr left) → cur = []

/-- What holds in every state of the read side. -/
structure Inv (p : Params) (resetn : Bool) (s : Rd) : Prop where
  accounts : Accounts p s.next s.blocked s.accepted s.inFlight s.done
  told : ∀ d ∈ s.done, Told (Answered s.given) d
  ack : ∀ tr status, s.resp = .ack tr status → Answered s.given tr status
  ended : Ended resetn s.atReset (s.inAddr.toList ++ s.inResp.toList) s.done
  low : resetn = false → s.responses = [] ∧ s.owed = []
  link : resetn = true → ∃ l₁ l₂ cur, s.Link l₁ l₂ cur

theorem inv_init (p : Params) (resetn : Bool) : Inv p resetn {} := by
  refine ⟨accounts_init p, fun _ hd => absurd hd List.not_mem_nil, fun _ => nofun, fun _ htr => absurd htr List.not_mem_nil,
    fun _ => ⟨rfl, rfl⟩, fun _ => ⟨[], [], [], rfl, rfl, fun _ => nofun, fun _ => rfl⟩⟩

/-- A `Link` does not look at the fifo or the address thread. -/
theorem Link.congr {cur : List Owed} (h : s.Link l₁ l₂ cur) (ho : s'.owed = s.owed) (hr : s'.responses = s.responses) (hp : s'.resp = s.resp) :
    s'.Link l₁ l₂ cur :=
  ⟨ho.trans h.owed, hr.trans h.responses, fun tr left ht => h.burst tr left (hp.symm.trans ht),
    fun ht => h.rest fun tr left hc => ht tr left (hp.trans hc)⟩

/-! #### The beats -/

theorem give_eq (ho : s.owed = l₁.map fresh ++ e :: l₂.map fresh) (hne : e.tr ∉ l₁ ++ l₂) :
    s.give e rresp =
      if e.left ≤ 1 then { s with owed := (l₁ ++ l₂).map fresh, given := s.given ++ [(e.tr, e.sent ++ [rresp])] }
      else { s with owed := l₁.map fresh ++ { e with left := e.left - 1, sent := e.sent ++ [rresp] } :: l₂.map fresh } := by
  have hother : ∀ {l : List Tx}, (∀ x ∈ l, x ≠ e.tr) → (l.map fresh).filter (fun e' => decide (e'.tr ≠ e.tr)) = l.map fresh ∧
      (l.map fresh).map (fun e' => if e'.tr = e.tr then { e' with left := e'.left - 1, sent := e'.sent ++ [rresp] } else e') = l.map fresh := by
    intro l hl
    refine ⟨List.filter_eq_self.2 fun x hx => ?_, ?_⟩
    · obtain ⟨y, hy, rfl⟩ := List.mem_map.1 hx
      exact decide_eq_true (hl y hy)
    · rw [List.map_map]
      exact List.map_congr_left fun y hy => if_neg (hl y hy)
  have h₁ := hother (l := l₁) fun x hx hc => hne (List.mem_append_left _ (hc ▸ hx))
  have h₂ := hother (l := l₂) fun x hx hc => hne (List.mem_append_right _ (hc ▸ hx))
  have hself : decide (e.tr ≠ e.tr) = false := by simp
  unfold give
  split
  · rw [ho, List.filter_append, List.filter_cons, h₁.1, h₂.1, hself, List.map_append]
    rfl
  · rw [ho, List.map_append, List.map_cons, h₁.2, h₂.2, if_pos rfl]

/-- Between bursts the slave's oldest read of an ID is the first that `LookupAxID` finds. -/
theorem lookup_of_oldest {l : List Tx} (hfit : ∀ t ∈ l, busId p t.axid = t.axid) (ho : s.owed = l.map fresh) (hr : s.responses = l)
    (h : s.oldest p id = some e) :
    ∃ pre post, l = pre ++ e.tr :: post ∧ e = fresh e.tr ∧ lookupAxID s.responses id = some (e.tr, pre ++ post) := by
  rw [oldest, ho, List.find?_map, Option.map_eq_some_iff] at h
  obtain ⟨tr, hfind, rfl⟩ := h
  obtain ⟨hid, pre, post, rfl, hpre⟩ := List.find?_eq_some_iff_append.1 hfind
  refine ⟨pre, post, rfl, rfl, ?_⟩
  have htr : tr.axid = id := by
    rw [← hfit tr (by simp)]
    exact of_decide_eq_true hid
  have hne : ∀ u ∈ pre, u.axid ≠ id := by
    intro u hu hc
    have hno := hpre u hu
    rw [Function.comp_apply, show (fresh u).tr = u from rfl, hfit u (by simp [hu]), hc] at hno
    simp at hno
  rw [hr]
  exact lookup_eq_some htr hne

/-- A read in `rdResponses` is in flight. -/
theorem Inv.fits_responses (h : Inv p resetn s) (ht : t ∈ s.responses) : busId p t.axid = t.axid :=
  h.accounts.fits_inFlight (by simp [inFlight, ht])

/-- Every beat is one of the read that the bridge takes it for. -/
theorem Inv.beat_cases (h : Inv p true s) (hok : s.StepOk p (.beat id rresp)) (hs : s.step p true (.beat id rresp) = some s') :
    ∃ e l₁ l₂, s.owed = l₁.map fresh ++ e :: l₂.map fresh ∧ (s.responses ++ s.inResp.toList).Perm (e.tr :: (l₁ ++ l₂)) ∧
      e.sent.length + e.left = e.tr.arlen + 1 ∧ 0 < e.left ∧ (e.left ≤ 1 → (∃ r ∈ e.sent, isError r = true) → isError rresp = true) ∧
      s' = ({ s.give e rresp with responses := l₁ ++ l₂ }.takeBeat p e.tr e.left rresp) := by
  obtain ⟨l₁, l₂, cur, hl⟩ := h.link rfl
  have hnd : s.inFlight.Nodup := (List.nodup_append.1 h.accounts.nodup).1
  simp only [step] at hs
  cases ho : s.oldest p id with
  | none =>
    rw [ho] at hs
    cases hs
  | some e =>
    obtain ⟨hsame, herr⟩ := hok e ho
    rw [ho] at hs
    simp only [Bool.true_eq_false, if_false] at hs
    cases hresp : s.resp with
    | idle =>
      have hcur : cur = [] := hl.rest fun tr left hc => by
        rw [hresp] at hc
        cases hc
      have howed := hl.owed
      rw [hcur, List.append_nil, ← List.map_append] at howed
      obtain ⟨pre, post, hsplit, hfresh, hlook⟩ :=
        lookup_of_oldest (fun t ht => h.fits_responses (hl.responses ▸ ht)) howed hl.responses ho
      rw [hresp, hlook] at hs
      obtain rfl := Option.some.inj hs
      refine ⟨e, pre, post, ?_, ?_, ?_, ?_, herr, ?_⟩
      · rw [howed, hsplit, List.map_append, List.map_cons, ← hfresh]
      · rw [hl.responses, hsplit, inResp, hresp, Option.toList_none, List.append_nil]
        exact List.perm_middle
      · rw [hfresh]
        simp [fresh]
      · rw [hfresh]
        exact Nat.succ_pos _
      · have hleft : e.left = e.tr.arlen + 1 := by
          rw [hfresh]
          rfl
        rw [hleft]
    | burst tr left =>
      obtain ⟨sent, hcur, hlen, hpos⟩ := hl.burst tr left hresp
      have htr := hsame tr (by rw [inBurst, hresp])
      have howed := hl.owed
      rw [hcur, List.append_assoc, List.singleton_append] at howed
      have hin : s.inResp.toList = [tr] := by
        rw [inResp, hresp]
        rfl
      have hno : tr ∉ l₁ ++ l₂ := by
        intro hc
        rw [inFlight, hin, hl.responses, List.nodup_append] at hnd
        exact hnd.2.2 tr (List.mem_append_right _ hc) tr (List.mem_singleton_self tr) rfl
      -- the entry of a read that is in hand is the one in its place
      have he : e = ⟨tr, left, sent⟩ := by
        have hmem : e ∈ s.owed := List.mem_of_find?_eq_some ho
        rw [howed, List.mem_append, List.mem_cons] at hmem
        rcases hmem with hmem | rfl | hmem
        · obtain ⟨u, hu, rfl⟩ := List.mem_map.1 hmem
          exact absurd (List.mem_append_left _ hu) (htr ▸ hno)
        · rfl
        · obtain ⟨u, hu, rfl⟩ := List.mem_map.1 hmem
          exact absurd (List.mem_append_right _ hu) (htr ▸ hno)
      subst he
      rw [hresp] at hs
      obtain rfl := Option.some.inj hs
      refine ⟨_, l₁, l₂, howed, ?_, hlen, hpos, herr, ?_⟩
      · rw [hin, hl.responses]
        exact List.perm_append_singleton _ _
      · congr 1
        have hgr : (s.give ⟨tr, left, sent⟩ rresp).responses = l₁ ++ l₂ := by
          unfold give
          split
          · exact hl.responses
          · exact hl.responses
        rw [← hgr]
    | ack tr st =>
      rw [hresp] at hs
      cases hs
    | held =>
      rw [hresp] at hs
      cases hs

/-- Where the transactions in flight are, told one by one. -/
theorem count_inFlight (s : Rd) (x : Tx) :
    s.inFlight.count x = s.transFifo.count x + s.inAddr.toList.count x + s.responses.count x + s.inResp.toList.count x := by
  simp only [inFlight, List.count_append]

theorem answered_last (hlen : e.sent.length + e.left = e.tr.arlen + 1) (hpos : 0 < e.left) (hlast : e.left ≤ 1)
    (herr : (∃ r ∈ e.sent, isError r = true) → isError rresp = true) :
    Answered (given ++ [(e.tr, e.sent ++ [rresp])]) e.tr (.ofResp rresp) := by
  refine ⟨e.sent ++ [rresp], List.mem_append_right _ (List.mem_singleton_self _), ?_, ?_⟩
  · rw [List.length_append, List.length_singleton]
    omega
  · rw [Status.ofResp_eq_ok]
    constructor
    · intro hok r hr
      rcases List.mem_append.1 hr with hr | hr
      · cases hre : isError r with
        | false => rfl
        | true =>
          rw [herr ⟨r, hr, hre⟩] at hok
          cases hok
      · rw [List.mem_singleton.1 hr, hok]
    · intro hall
      exact hall rresp (List.mem_append_right _ (List.mem_singleton_self _))

theorem Inv.beat (h : Inv p true s) (hok : s.StepOk p (.beat id rresp)) (hs : s.step p true (.beat id rresp) = some s') : Inv p true s' := by
  obtain ⟨e, l₁, l₂, howed, hperm, hlen, hpos, herr, rfl⟩ := h.beat_cases hok hs
  have hcount : ∀ x, s.responses.count x + s.inResp.toList.count x = [e.tr].count x + (l₁ ++ l₂).count x := by
    intro x
    have hx := hperm.count_eq x
    rw [List.count_append, List.count_cons] at hx
    rw [hx, List.count_cons, List.count_nil]
    omega
  have hno : e.tr ∉ l₁ ++ l₂ := by
    have hnd : s.inFlight.Nodup := (List.nodup_append.1 h.accounts.nodup).1
    rw [inFlight, List.append_assoc, List.nodup_append] at hnd
    exact (List.nodup_cons.1 (hperm.nodup_iff.1 hnd.2.1)).1
  rw [give_eq howed hno, takeBeat]
  by_cases hlast : e.left ≤ 1
  · have hans : Answered (s.given ++ [(e.tr, e.sent ++ [rresp])]) e.tr (.ofResp rresp) := answered_last hlen hpos hlast (herr hlast)
    rw [if_pos hlast, if_pos hlast]
    unfold finish
    split
    · refine ⟨h.accounts.step fun x => ?_, fun d hd => (h.told d hd).mono fun _ _ ha => ha.mono _, ?_, h.ended.same nofun, nofun, ?_⟩
      · have hx := hcount x
        simp only [count_inFlight, inAddr, inResp, Option.toList_some] at hx ⊢
        omega
      · rintro tr st hack
        obtain ⟨rfl, rfl⟩ := RdRespPc.ack.inj hack
        exact hans
      · exact fun _ => ⟨l₁, l₂, [], by simp, rfl, fun _ => nofun, fun _ => rfl⟩
    · refine ⟨h.accounts.step fun x => ?_, ?_, fun _ => nofun, h.ended.mono nofun, nofun, ?_⟩
      · have hx := hcount x
        simp only [count_inFlight, inAddr, inResp, List.map_append, List.map_cons, List.map_nil, List.count_append, Option.toList_none,
          List.count_nil] at hx ⊢
        omega
      · intro d hd
        rcases List.mem_append.1 hd with hd | hd
        · exact (h.told d hd).mono fun _ _ ha => ha.mono _
        · rw [List.mem_singleton.1 hd]
          exact hans
      · exact fun _ => ⟨l₁, l₂, [], by simp, rfl, fun _ => nofun, fun _ => rfl⟩
  · rw [if_neg hlast, if_neg hlast]
    refine ⟨h.accounts.step fun x => ?_, h.told, fun _ => nofun, h.ended.same nofun, nofun, ?_⟩
    · have hx := hcount x
      simp only [count_inFlight, inAddr, inResp, Option.toList_some] at hx ⊢
      omega
    · refine fun _ => ⟨l₁, l₂, [{ e with left := e.left - 1, sent := e.sent ++ [rresp] }], by simp, rfl, ?_,
        fun hc => absurd rfl (hc e.tr (e.left - 1))⟩
      rintro tr left hb
      obtain ⟨rfl, rfl⟩ := RdRespPc.burst.inj hb
      refine ⟨e.sent ++ [rresp], rfl, ?_, by omega⟩
      rw [List.length_append, List.length_singleton]
      omega

/-! #### The other steps -/

theorem Inv.accept (h : Inv p resetn s) (hr : s'.resp = s.resp) (hd : s'.done = s.done) (hg : s'.given = s.given) (ha : s'.addr = s.addr)
    (hat : s'.atReset = s.atReset) (ho : s'.owed = s.owed) (hre : s'.responses = s.responses)
    (hacc : Accounts p s'.next s'.blocked s'.accepted s'.inFlight s'.done) : Inv p resetn s' := by
  refine ⟨hacc, hd ▸ hg ▸ h.told, fun tr st hs => hg ▸ h.ack tr st (hr ▸ hs), ?_, fun hf => ?_, fun ht => ?_⟩
  · rw [hat, hd, inAddr, inResp, ha, hr]
    exact h.ended
  · rw [hre, ho]
    exact h.low hf
  · obtain ⟨l₁, l₂, cur, hl⟩ := h.link ht
    exact ⟨l₁, l₂, cur, hl.congr ho hre hr⟩

theorem Inv.call {axid : BitVec 32} {arlen : ℕ} (h : Inv p resetn s) (hok : s.StepOk p (.call axid arlen))
    (hs : s.step p resetn (.call axid arlen) = some s') : Inv p resetn s' := by
  simp only [step] at hs
  split at hs
  · cases hs
  · split at hs
    · obtain rfl := Option.some.inj hs
      refine h.accept rfl rfl rfl rfl rfl rfl rfl (h.accounts.accept rfl hok (List.perm_iff_count.2 fun x => ?_))
      simp only [count_inFlight, Rd.accept, inAddr, inResp, List.count_append, List.count_cons, List.count_nil]
      omega
    · obtain rfl := Option.some.inj hs
      exact h.accept rfl rfl rfl rfl rfl rfl rfl (h.accounts.block rfl hok)

theorem Inv.unblock {k : ℕ} (h : Inv p resetn s) (hs : s.step p resetn (.unblock k) = some s') : Inv p resetn s' := by
  simp only [step] at hs
  split at hs
  · rename_i tr hk
    obtain ⟨pre, post, hb, rfl⟩ := exists_append_of_getElem? hk
    split at hs
    · obtain rfl := Option.some.inj hs
      refine h.accept rfl rfl rfl rfl rfl rfl rfl ?_
      have hacc := h.accounts
      rw [hb] at hacc
      have herase : s.blocked.eraseIdx pre.length = pre ++ post := by
        rw [hb, eraseIdx_middle]
      simp only [Rd.accept, herase]
      refine hacc.unblock (List.perm_iff_count.2 fun x => ?_)
      simp only [count_inFlight, inAddr, inResp, List.count_append, List.count_cons, List.count_nil]
      omega
    · cases hs
  · cases hs

theorem Inv.take (h : Inv p resetn s) (hs : s.step p resetn .take = some s') : Inv p resetn s' := by
  simp only [step] at hs
  split at hs
  · rename_i tr rest haddr hfifo
    split at hs
    · obtain rfl := Option.some.inj hs
      subst resetn
      obtain ⟨l₁, l₂, cur, hl⟩ := h.link rfl
      refine ⟨h.accounts.step fun x => ?_, h.told, h.ack, h.ended.same nofun, nofun, fun _ => ⟨l₁, l₂, cur, hl.congr rfl rfl rfl⟩⟩
      simp only [count_inFlight, inAddr, inResp, haddr, hfifo, List.count_cons, List.count_nil, Option.toList_some, Option.toList_none]
      omega
    · rename_i hr
      obtain rfl := Option.some.inj hs
      refine ⟨h.accounts.step fun x => ?_, ?_, h.ack, h.ended.mono fun _ u hu => .inl ?_, h.low, fun ht => absurd ht hr⟩
      · simp only [count_inFlight, inAddr, inResp, haddr, hfifo, abort, List.map_append, List.map_cons, List.map_nil, List.count_append,
          List.count_cons, List.count_nil, Option.toList_none]
        omega
      · exact told_append_abort h.told [tr]
      · simpa [inAddr, inResp, haddr] using hu
  · cases hs

theorem Inv.arready (h : Inv p resetn s) (hs : s.step p resetn .arready = some s') : Inv p resetn s' := by
  simp only [step] at hs
  split at hs
  · rename_i tr haddr
    split at hs
    · obtain rfl := Option.some.inj hs
      subst resetn
      obtain ⟨l₁, l₂, cur, hl⟩ := h.link rfl
      refine ⟨h.accounts.step fun x => ?_, h.told, h.ack, h.ended.same nofun, nofun, fun _ => ⟨l₁, l₂ ++ [tr], cur, ?_, ?_, hl.burst, hl.rest⟩⟩
      · simp only [count_inFlight, inAddr, inResp, haddr, List.count_append, List.count_nil, Option.toList_some, Option.toList_none]
        omega
      · rw [hl.owed, List.map_append, ← List.append_assoc]
        rfl
      · rw [hl.responses, List.append_assoc]
    · cases hs
  · cases hs

theorem Inv.rack (h : Inv p resetn s) (hs : s.step p resetn .ack = some s') : Inv p resetn s' := by
  simp only [step] at hs
  split at hs
  · rename_i tr st hresp
    split at hs
    · obtain rfl := Option.some.inj hs
      subst resetn
      obtain ⟨l₁, l₂, cur, hl⟩ := h.link rfl
      refine ⟨h.accounts.step fun x => ?_, ?_, fun _ => nofun, h.ended.mono nofun, nofun,
        fun _ => ⟨l₁, l₂, cur, hl.owed, hl.responses, fun _ => nofun, fun _ => hl.rest fun u left hc => ?_⟩⟩
      · simp only [count_inFlight, inAddr, inResp, hresp, List.map_append, List.map_cons, List.map_nil, List.count_append, List.count_nil,
          Option.toList_some, Option.toList_none]
        omega
      · refine List.forall_mem_append.2 ⟨h.told, fun d hd => ?_⟩
        rw [List.mem_singleton.1 hd]
        exact h.ack tr st hresp
      · rw [hresp] at hc
        cases hc
    · cases hs
  · cases hs

theorem Inv.abortAddr (h : Inv p resetn s) (hs : s.step p resetn .abortAddr = some s') : Inv p resetn s' := by
  simp only [step] at hs
  split at hs
  · rename_i tr haddr
    split at hs
    · obtain rfl := Option.some.inj hs
      subst resetn
      refine ⟨h.accounts.step fun x => ?_, ?_, h.ack, h.ended.mono fun _ u hu => ?_, h.low, nofun⟩
      · simp only [count_inFlight, inAddr, inResp, haddr, abort, List.map_append, List.map_cons, List.map_nil, List.count_append, List.count_nil,
          Option.toList_some, Option.toList_none]
        omega
      · exact told_append_abort h.told [tr]
      · rcases List.mem_append.1 hu with hu | hu
        · rw [inAddr, haddr] at hu
          obtain rfl := List.mem_singleton.1 hu
          exact .inr ⟨abort u, List.mem_singleton_self _, rfl, rfl⟩
        · exact .inl (List.mem_append_right _ hu)
    · cases hs
  · cases hs

/-- The thread leaves what it has in hand, and tells its caller. -/
theorem Inv.leave (h : Inv p false s) (hin : s.inResp = some tr) : Inv p false { s with resp := .held, done := s.done ++ [abort tr] } := by
  refine ⟨h.accounts.step fun x => ?_, ?_, fun _ => nofun, h.ended.mono fun _ u hu => ?_, h.low, nofun⟩
  · rw [count_inFlight s, hin]
    simp only [count_inFlight, inAddr, inResp, abort, List.map_append, List.map_cons, List.map_nil, List.count_append, List.count_nil,
      Option.toList_some, Option.toList_none]
    omega
  · exact told_append_abort h.told [tr]
  · rcases List.mem_append.1 hu with hu | hu
    · exact .inl (List.mem_append_left _ hu)
    · rw [hin] at hu
      obtain rfl := List.mem_singleton.1 hu
      exact .inr ⟨abort u, List.mem_singleton_self _, rfl, rfl⟩

theorem Inv.abortResp (h : Inv p resetn s) (hs : s.step p resetn .abortResp = some s') : Inv p resetn s' := by
  simp only [step] at hs
  split at hs
  · cases hs
  · rename_i hr
    obtain rfl := Bool.eq_false_of_not_eq_true hr
    split at hs
    · rename_i hresp
      obtain rfl := Option.some.inj hs
      refine ⟨h.accounts.step fun x => ?_, h.told, fun _ => nofun, h.ended.same fun _ u hu => ?_, h.low, nofun⟩
      · simp only [count_inFlight, inAddr, inResp, hresp]
      · simpa [inAddr, inResp, hresp] using hu
    · obtain rfl := Option.some.inj hs
      exact h.leave (by rw [inResp, ‹s.resp = _›])
    · obtain rfl := Option.some.inj hs
      exact h.leave (by rw [inResp, ‹s.resp = _›])
    · cases hs

/-- A step of the read side keeps the invariant. -/
theorem Inv.step {a : RdAction} (h : Inv p resetn s) (hok : s.StepOk p a) (hs : s.step p resetn a = some s') : Inv p resetn s' := by
  cases a with
  | call axid arlen => exact h.call hok hs
  | unblock k => exact h.unblock hs
  | take => exact h.take hs
  | arready => exact h.arready hs
  | beat id rresp =>
    cases hr : resetn with
    | true =>
      subst hr
      exact h.beat hok hs
    | false =>
      simp only [Rd.step] at hs
      rw [hr] at hs
      split at hs
      · cases hs
      · cases hs
  | ack => exact h.rack hs
  | abortAddr => exact h.abortAddr hs
  | abortResp => exact h.abortResp hs

theorem Inv.reset (h : Inv p true s) : Inv p false s.reset := by
  refine ⟨h.accounts.step fun x => ?_, ?_, h.ack, ended_reset fun t ht => ?_, fun _ => ⟨rfl, rfl⟩, nofun⟩
  · simp only [count_inFlight, Rd.reset, inAddr, inResp, List.map_append (f := Done.tr), map_tr_abort, List.count_append, List.count_nil]
    omega
  · exact told_append_abort h.told _
  · have ht : t ∈ s.inFlight := ht
    simp only [inFlight, List.mem_append] at ht
    have hh : s.reset.inAddr = s.inAddr ∧ s.reset.inResp = s.inResp := ⟨rfl, rfl⟩
    rw [hh.1, hh.2, List.mem_append, List.mem_append]
    tauto

theorem hands_of_settled (h : s.settled = true) : s.inAddr = none ∧ s.inResp = none := by
  simp only [settled, Bool.and_eq_true, Bool.or_eq_true, decide_eq_true_eq] at h
  obtain ⟨ha, hr⟩ := h
  constructor
  · rcases ha with ha | ⟨ha, -⟩
    · rw [inAddr, ha]
    · rw [inAddr, ha]
  · rw [inResp, hr]

theorem Inv.release (h : Inv p false s) (hset : s.settled = true) : Inv p true s.release := by
  obtain ⟨hA, hR⟩ := hands_of_settled hset
  obtain ⟨hre, how⟩ := h.low rfl
  refine ⟨h.accounts.step fun x => ?_, h.told, fun _ => nofun, h.ended.release (by rw [hA, hR]; rfl) true, nofun,
    fun _ => ⟨[], [], [], how, hre, fun _ => nofun, fun _ => rfl⟩⟩
  rw [count_inFlight s, hA, hR, count_inFlight]
  rfl

/-- What the invariant says of the completions. -/
theorem Inv.completes (h : Inv p resetn s) : s.Completes p resetn := by
  refine ⟨⟨?_, h.accounts.perm⟩, h.told, fun hr tr htr => ?_, fun hr tr htr => ?_, fun hr id rresp ho hresp => ?_⟩
  · have hser := h.accounts.serials
    rw [List.map_append, List.nodup_append] at hser
    exact hser.2.1
  · rcases h.ended tr htr with hd | ⟨hf, hmem⟩
    · exact hd
    · rcases hr with hr | hr
      · rw [hf] at hr
        cases hr
      · rw [(hands_of_settled hr).1, (hands_of_settled hr).2] at hmem
        cases hmem
  · obtain ⟨l₁, l₂, cur, hl⟩ := h.link hr
    rw [hl.responses, List.mem_append] at htr
    refine ⟨fresh tr, ?_, rfl⟩
    rw [hl.owed]
    rcases htr with htr | htr
    · simp [List.mem_map_of_mem (f := fresh) htr]
    · simp [List.mem_map_of_mem (f := fresh) htr]
  · obtain ⟨e, ho⟩ := Option.isSome_iff_exists.1 ho
    subst hr
    rcases hresp with hresp | ⟨tr, left, hresp⟩
    · obtain ⟨l₁, l₂, cur, hl⟩ := h.link rfl
      have hcur : cur = [] := hl.rest fun u left hc => by
        rw [hresp] at hc
        cases hc
      have howed := hl.owed
      rw [hcur, List.append_nil, ← List.map_append] at howed
      obtain ⟨pre, post, -, -, hlook⟩ := lookup_of_oldest (fun t ht => h.fits_responses (hl.responses ▸ ht)) howed hl.responses ho
      simp only [Rd.step, ho, hresp, hlook]
      rfl
    · simp only [Rd.step, ho, hresp]
      rfl

end Rd

end LibSystemCTLM.Tlm2Axi.Completion
