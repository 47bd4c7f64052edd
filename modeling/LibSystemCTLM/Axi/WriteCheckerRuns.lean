import LibSystemCTLM.Axi.WriteStrobes

/-!
# What the write checker reports

Each beat should be charged to its own transaction, and an error reported for a transaction exactly when a beat has
bad strobes or `wlast` is not on beat `awlen + 1` (`Judged`). That is so in runs (`judged_of_run`) in which the lists
have room, the equations give the lanes of AXI, and no burst goes on after beat `awlen + 1`: the check is made when
`wlast` comes, and is passed by every beat from there on.
-/

namespace LibSystemCTLM.Axi.WrTx

open Foundation Pairing

variable {cfg : Config}

/-! ### What is asked -/

/-- What a beat has in common with its address: nothing in AXI4, where data comes in the order of the addresses. -/
def keyOf (cfg : Config) (id : BitVec 32) : BitVec 32 :=
  match cfg.version with
  | .axi4 => 0
  | .axi3 => id

def Address.key (a : Address cfg) : BitVec 32 := keyOf cfg a.awid

def WData.key (wd : WData cfg) : BitVec 32 := keyOf cfg wd.wid

namespace Ledger

variable (l : Ledger cfg)

/-- The addresses with a key. -/
def addrsOf (κ : BitVec 32) : List (Address cfg) := ofKey Address.key κ l.addrs

/-- The data of the `j`th of them. -/
def burstOf (κ : BitVec 32) (j : ℕ) : List (WData cfg) := burst WData.wlast j (ofKey WData.key κ l.beats)

/-- No burst goes on after beat `awlen + 1`. -/
def Ends : Prop := ∀ κ j a, (l.addrsOf κ)[j]? = some a → ∀ wd, (l.burstOf κ j)[a.awlen]? = some wd → wd.wlast = true

end Ledger

structure Judged (s : State cfg) : Prop where
  charged : ∀ κ j a, (s.ledger.addrsOf κ)[j]? = some a → chargedTo a s.checker.charged = s.ledger.burstOf κ j
  wstrb : ∀ κ j a, (s.ledger.addrsOf κ)[j]? = some a →
    (.wstrb a ∈ s.checker.reports ↔ cfg.enWstrbCheck = true ∧ ∃ n wd, (s.ledger.burstOf κ j)[n]? = some wd ∧ a.BadWstrb n wd.wstrb)
  burst : ∀ κ j a, (s.ledger.addrsOf κ)[j]? = some a →
    (.burst a ∈ s.checker.reports ↔ cfg.enWrBurstsCheck = true ∧ ∃ n wd, (s.ledger.burstOf κ j)[n]? = some wd ∧ wd.wlast ≠ decide (n = a.awlen))

/-- The lists have room. -/
def Fits (s : State cfg) (e : Edge cfg) : Prop :=
  (e.aw.isSome = true → s.checker.wtList.length < cfg.maxDepth) ∧ (e.w.isSome = true → s.checker.wdataList.length < cfg.maxWdataDepth)

/-- What has to hold, so that the checker is right. -/
def Fair (s : State cfg) (e : Edge cfg) : Prop := Fits s e ∧ (∀ a ∈ e.aw, a.Plain) ∧ (s.ledger.accept e).Ends

/-! ### What a run keeps -/

/-- The ledger against the lists of the checker and its reports. -/
structure Inv (l : Ledger cfg) (wtList : List (Transaction cfg)) (wdataList : List (WData cfg)) (charged : List (Address cfg × WData cfg))
    (reports : List (Report cfg)) : Prop where
  numbers : ∀ (i : ℕ) (a : Address cfg), l.addrs[i]? = some a → a.number = i
  paired : Paired Address.key WData.key WData.wlast l.addrs l.beats (wtList.map (·.address)) wdataList charged
  beat : ∀ wt ∈ wtList, wt.beat = (chargedTo wt.address charged).length + 1
  wstrb : ∀ a, .wstrb a ∈ reports ↔ cfg.enWstrbCheck = true ∧
    ∃ n wd, (chargedTo a charged)[n]? = some wd ∧ (Transaction.mk a (n + 1)).checkWstrb wd.wstrb cfg.allowWstrbGaps = false
  burst : ∀ a, .burst a ∈ reports ↔ cfg.enWrBurstsCheck = true ∧ ∃ n wd, (chargedTo a charged)[n]? = some wd ∧ wd.wlast = true ∧ n < a.awlen

/-- Nothing pending has data in the queue. -/
def Settled (wtList : List (Transaction cfg)) (wdataList : List (WData cfg)) : Prop :=
  ∀ wt ∈ wtList, ∀ wd ∈ wdataList, wd.key ≠ wt.address.key

theorem Inv.init : Inv ({} : Ledger cfg) [] [] [] [] := by
  refine ⟨nofun, .nil, fun _ => nofun, fun a => ⟨nofun, ?_⟩, fun a => ⟨nofun, ?_⟩⟩
  · rintro ⟨_, n, wd, hnone, _⟩
    cases hnone
  · rintro ⟨_, n, wd, hnone, _⟩
    cases hnone

section Charge

variable {l : Ledger cfg} {s : Checker cfg} {pre post : List (Transaction cfg)} {qpre qpost : List (WData cfg)} {wt : Transaction cfg} {wd : WData cfg}

theorem charge_charged : (s.charge wt wd).charged = s.charged ++ [(wt.address, wd)] := by
  unfold Checker.charge
  dsimp only
  split
  · split <;> rfl
  · rfl

/-- The errors of a beat, and no other for a transaction. -/
theorem mem_charge_reports {r : Report cfg} (hr : r ≠ .maxTransactions) : r ∈ (s.charge wt wd).reports ↔ r ∈ s.reports ∨ r ∈ beatReports wt wd := by
  rw [← List.mem_append]
  unfold Checker.charge
  dsimp only
  split
  · split
    · rfl
    · unfold Checker.report
      rw [List.mem_append, List.mem_singleton]
      exact or_iff_left hr
  · rfl

theorem wstrb_mem_beatReports {a : Address cfg} : .wstrb a ∈ beatReports wt wd ↔
    a = wt.address ∧ cfg.enWstrbCheck = true ∧ wt.checkWstrb wd.wstrb cfg.allowWstrbGaps = false := by
  unfold beatReports
  rw [List.mem_append]
  split <;> split <;> simp_all

theorem burst_mem_beatReports {a : Address cfg} : .burst a ∈ beatReports wt wd ↔
    a = wt.address ∧ wd.wlast = true ∧ cfg.enWrBurstsCheck = true ∧ wt.incBeat.done = false := by
  unfold beatReports
  rw [List.mem_append]
  split <;> split <;> simp_all

/-- What a beat adds to what holds of some beat of a transaction. -/
theorem exists_charged_concat {charged : List (Address cfg × WData cfg)} {a : Address cfg} {p : ℕ → WData cfg → Prop} :
    (∃ n wd', (chargedTo a (charged ++ [(wt.address, wd)]))[n]? = some wd' ∧ p n wd') ↔
      (∃ n wd', (chargedTo a charged)[n]? = some wd' ∧ p n wd') ∨ a = wt.address ∧ p (chargedTo a charged).length wd := by
  by_cases ha : wt.address = a
  · subst ha
    rw [chargedTo_concat_self]
    constructor
    · rintro ⟨n, wd', hat, hp⟩
      rcases Nat.lt_or_ge n (chargedTo wt.address charged).length with hlt | hge
      · rw [List.getElem?_append_left hlt] at hat
        exact .inl ⟨n, wd', hat, hp⟩
      · obtain ⟨k, hk⟩ := Nat.exists_eq_add_of_le hge
        rw [hk, List.getElem?_append_right (Nat.le_add_right _ _), Nat.add_sub_cancel_left] at hat
        cases k with
        | zero =>
          obtain rfl := Option.some.inj hat
          subst hk
          exact .inr ⟨rfl, hp⟩
        | succ k => cases hat
    · rintro (⟨n, wd', hat, hp⟩ | ⟨_, hp⟩)
      · exact ⟨n, wd', (List.getElem?_append_left (List.getElem?_eq_some_iff.1 hat).1).trans hat, hp⟩
      · exact ⟨_, wd, List.getElem?_concat_length, hp⟩
  · rw [chargedTo_concat_of_ne ha]
    exact (or_iff_left fun h => ha h.1.symm).symm

/-- A beat is charged to the first transaction with its key. -/
theorem Inv.charge (h : Inv l (pre ++ wt :: post) (qpre ++ wd :: qpost) s.charged s.reports) (hpre : ∀ t ∈ pre, t.address.key ≠ wt.address.key)
    (hqpre : ∀ d ∈ qpre, d.key ≠ wt.address.key) (hkey : wd.key = wt.address.key) :
    Inv l (pre ++ if wd.wlast = true then post else wt.incBeat :: post) (qpre ++ qpost) (s.charge wt wd).charged (s.charge wt wd).reports := by
  have hpaired := h.paired
  rw [List.map_append, List.map_cons] at hpaired
  have hpre' : ∀ a ∈ pre.map (·.address), a.key ≠ wt.address.key := by
    intro a ha
    obtain ⟨t, ht, rfl⟩ := List.mem_map.1 ha
    exact hpre t ht
  have hbeat : wt.beat = (chargedTo wt.address s.charged).length + 1 := h.beat wt (List.mem_append_right _ List.mem_cons_self)
  have hwt : Transaction.mk wt.address ((chargedTo wt.address s.charged).length + 1) = wt := by rw [← hbeat]
  obtain ⟨hnpre, hnpost⟩ := hpaired.not_mem hpre'
  rw [charge_charged]
  refine ⟨h.numbers, ?_, fun t ht => ?_, fun a => ?_, fun a => ?_⟩
  · have hcharged := hpaired.charge hpre' hqpre hkey
    rw [List.map_append]
    split
    · rename_i hlast
      rwa [if_pos hlast] at hcharged
    · rename_i hlast
      rwa [if_neg hlast] at hcharged
  · -- only the transaction itself has got a beat
    have hother : t ∈ pre ∨ t ∈ post → t.beat = (chargedTo t.address (s.charged ++ [(wt.address, wd)])).length + 1 := by
      intro hin
      have hne : wt.address ≠ t.address := by
        intro heq
        obtain hl | hr := hin
        · exact hnpre (heq ▸ List.mem_map_of_mem hl)
        · exact hnpost (heq ▸ List.mem_map_of_mem hr)
      rw [chargedTo_concat_of_ne hne]
      refine h.beat t (List.mem_append.2 (hin.imp_right fun hr => List.mem_cons_of_mem wt hr))
    obtain hl | hr := List.mem_append.1 ht
    · exact hother (.inl hl)
    · split at hr
      · exact hother (.inr hr)
      · obtain rfl | hr := List.mem_cons.1 hr
        · change wt.beat + 1 = (chargedTo wt.address (s.charged ++ [(wt.address, wd)])).length + 1
          rw [chargedTo_concat_self, List.length_append, hbeat]
          rfl
        · exact hother (.inr hr)
  · rw [mem_charge_reports (r := .wstrb a) nofun, h.wstrb, wstrb_mem_beatReports, exists_charged_concat, and_or_left]
    refine or_congr_right ?_
    constructor
    · rintro ⟨rfl, hen, hbad⟩
      exact ⟨hen, rfl, hwt.symm ▸ hbad⟩
    · rintro ⟨hen, rfl, hbad⟩
      exact ⟨rfl, hen, hwt ▸ hbad⟩
  · have hdone : wt.incBeat.done = false ↔ (chargedTo wt.address s.charged).length < wt.address.awlen := by
      unfold Transaction.done Transaction.incBeat Address.numBeats
      rw [decide_eq_false_iff_not, hbeat]
      dsimp only
      omega
    rw [mem_charge_reports (r := .burst a) nofun, h.burst, burst_mem_beatReports, exists_charged_concat, and_or_left, hdone]
    refine or_congr_right ?_
    constructor
    · rintro ⟨rfl, hlast, hen, hearly⟩
      exact ⟨hen, rfl, hlast, hearly⟩
    · rintro ⟨hen, rfl, hlast, hearly⟩
      exact ⟨rfl, hlast, hen, hearly⟩

end Charge

/-! ### The loops -/

section Loops

variable {l : Ledger cfg} {s : Checker cfg}

theorem key_eq_of_axi4 (hversion : cfg.version = .axi4) (id id' : BitVec 32) : keyOf cfg id = keyOf cfg id' := by
  unfold keyOf
  rw [hversion]

theorem key_of_axi3 (hversion : cfg.version = .axi3) (id : BitVec 32) : keyOf cfg id = id := by
  unfold keyOf
  rw [hversion]

theorem Inv.processAxi4 (hversion : cfg.version = .axi4) {wts : List (Transaction cfg)} {wds : List (WData cfg)} (h : Inv l wts wds s.charged s.reports) :
    let out := s.processAxi4 wts wds
    Inv l out.wtList out.wdataList out.charged out.reports ∧ Settled out.wtList out.wdataList := by
  induction wds generalizing s wts with
  | nil =>
    cases wts with
    | nil => exact ⟨h, fun _ => nofun⟩
    | cons wt wts => exact ⟨h, fun _ => nofun⟩
  | cons wd wds ih =>
    cases wts with
    | nil => exact ⟨h, fun _ => nofun⟩
    | cons wt wts =>
      have hfirst : Inv l ([] ++ wt :: wts) ([] ++ wd :: wds) s.charged s.reports := h
      exact ih (hfirst.charge (fun _ => nofun) (fun _ => nofun) (key_eq_of_axi4 hversion _ _))

/-- The inner loop ends with the transaction, or with no data for it. -/
theorem Inv.drain (hversion : cfg.version = .axi3) {pre post : List (Transaction cfg)} {qpre wds : List (WData cfg)} {wt : Transaction cfg}
    (h : Inv l (pre ++ wt :: post) (qpre ++ wds) s.charged s.reports) (hpre : Settled pre (qpre ++ wds)) (hqpre : Settled [wt] qpre) :
    let out := s.drain wt wds
    Inv l (pre ++ (out.2.1.toList ++ post)) (qpre ++ out.2.2) out.1.charged out.1.reports ∧ Settled out.2.1.toList (qpre ++ out.2.2) ∧
      (∀ wd ∈ out.2.2, wd ∈ wds) := by
  induction wds generalizing s wt qpre with
  | nil =>
    rw [List.append_nil] at h
    refine ⟨?_, ?_, fun _ => nofun⟩
    · rw [Checker.drain, List.append_nil]
      exact h
    · rw [Checker.drain, List.append_nil]
      exact hqpre
  | cons wd wds ih =>
    have hkey : wd.key = wt.address.key ↔ wd.wid = wt.address.awid := by
      unfold WData.key Address.key
      rw [key_of_axi3 hversion, key_of_axi3 hversion]
    by_cases hid : wd.wid = wt.address.awid
    · have hfirst : ∀ t ∈ pre, t.address.key ≠ wt.address.key := by
        intro t ht heq
        exact hpre t ht wd (List.mem_append_right _ List.mem_cons_self) ((hkey.2 hid).trans heq.symm)
      have hcharged := h.charge hfirst (hqpre wt (List.mem_singleton_self wt)) (hkey.2 hid)
      rw [Checker.drain, if_pos hid]
      by_cases hlast : wd.wlast = true
      · rw [if_pos hlast] at hcharged ⊢
        exact ⟨hcharged, fun _ => nofun, fun d hd => List.mem_cons_of_mem wd hd⟩
      · rw [if_neg hlast] at hcharged ⊢
        have hsub : Settled pre (qpre ++ wds) := fun t ht d hd =>
          hpre t ht d (List.mem_append.2 ((List.mem_append.1 hd).imp_right fun hin => List.mem_cons_of_mem wd hin))
        have hinc : Settled [wt.incBeat] qpre := by
          intro t ht d hd
          rw [List.mem_singleton.1 ht]
          exact hqpre wt (List.mem_singleton_self wt) d hd
        obtain ⟨hinv, hsettled, hmem⟩ := ih hcharged hsub hinc
        exact ⟨hinv, hsettled, fun d hd => List.mem_cons_of_mem wd (hmem d hd)⟩
    · -- the datum stays where it is
      rw [List.append_cons qpre] at h hpre
      have hskip : Settled [wt] (qpre ++ [wd]) := by
        intro t ht d hd
        rw [List.mem_singleton.1 ht]
        obtain hin | hin := List.mem_append.1 hd
        · exact hqpre wt (List.mem_singleton_self wt) d hin
        · rw [List.mem_singleton.1 hin]
          exact fun heq => hid (hkey.1 heq)
      obtain ⟨hinv, hsettled, hmem⟩ := ih h hpre hskip
      rw [List.append_assoc] at hinv hsettled
      rw [Checker.drain, if_neg hid]
      refine ⟨hinv, hsettled, fun d hd => ?_⟩
      obtain rfl | hin := List.mem_cons.1 hd
      · exact List.mem_cons_self
      · exact List.mem_cons_of_mem wd (hmem d hin)

theorem Inv.processAxi3 (hversion : cfg.version = .axi3) {pre wts : List (Transaction cfg)} {wds : List (WData cfg)}
    (h : Inv l (pre ++ wts) wds s.charged s.reports) (hpre : Settled pre wds) :
    let out := s.processAxi3 wts wds
    Inv l (pre ++ out.wtList) out.wdataList out.charged out.reports ∧ Settled (pre ++ out.wtList) out.wdataList := by
  induction wts generalizing s pre wds with
  | nil =>
    refine ⟨h, ?_⟩
    rw [Checker.processAxi3, List.append_nil]
    exact hpre
  | cons wt wts ih =>
    have hnone : Settled [wt] [] := fun _ _ _ hd => nomatch hd
    have hdrain := Inv.drain hversion (l := l) (s := s) h hpre hnone
    obtain ⟨hinv, hsettled, hmem⟩ := hdrain
    rw [← List.append_assoc] at hinv
    have hpre' : Settled (pre ++ (s.drain wt wds).2.1.toList) (s.drain wt wds).2.2 := by
      intro t ht d hd
      obtain hin | hin := List.mem_append.1 ht
      · exact hpre t hin d (hmem d hd)
      · exact hsettled t hin d hd
    obtain ⟨hend, hdone⟩ := ih hinv hpre'
    rw [List.append_assoc] at hend hdone
    rw [Checker.processAxi3]
    exact ⟨hend, hdone⟩

theorem Inv.process (h : Inv l s.wtList s.wdataList s.charged s.reports) :
    Inv l s.process.wtList s.process.wdataList s.process.charged s.process.reports ∧ Settled s.process.wtList s.process.wdataList := by
  unfold Checker.process
  cases hversion : cfg.version with
  | axi4 => exact h.processAxi4 hversion
  | axi3 =>
    have hstart : Inv l ([] ++ s.wtList) s.wdataList s.charged s.reports := h
    exact hstart.processAxi3 hversion (fun _ => nofun)

end Loops

/-! ### An edge -/

section Edges

variable {l : Ledger cfg} {s : Checker cfg}

theorem Inv.sampleAw (h : Inv l s.wtList s.wdataList s.charged s.reports) {a : Address cfg} (hroom : s.wtList.length < cfg.maxDepth)
    (hnumber : a.number = l.addrs.length) :
    Inv { l with addrs := l.addrs ++ [a] } (s.sampleAw a).wtList (s.sampleAw a).wdataList (s.sampleAw a).charged (s.sampleAw a).reports := by
  have hnew : a ∉ l.addrs := by
    intro hin
    obtain ⟨i, hi⟩ := List.getElem?_of_mem hin
    have hlt := (List.getElem?_eq_some_iff.1 hi).1
    rw [← h.numbers i a hi, hnumber] at hlt
    exact lt_irrefl _ hlt
  have hempty : chargedTo a s.charged = [] := h.paired.chargedTo_of_not_mem hnew
  unfold Checker.sampleAw
  rw [if_pos hroom]
  refine ⟨fun i b hb => ?_, ?_, fun wt hwt => ?_, h.wstrb, h.burst⟩
  · rcases Nat.lt_or_ge i l.addrs.length with hlt | hge
    · rw [List.getElem?_append_left hlt] at hb
      exact h.numbers i b hb
    · have hlen := (List.getElem?_eq_some_iff.1 hb).1
      rw [List.length_append, List.length_singleton] at hlen
      obtain rfl : i = l.addrs.length := by omega
      rw [List.getElem?_concat_length] at hb
      rw [← Option.some.inj hb, hnumber]
  · rw [List.map_append]
    exact h.paired.address hnew
  · obtain hin | hin := List.mem_append.1 hwt
    · exact h.beat wt hin
    · rw [List.mem_singleton.1 hin, hempty]
      rfl

theorem Inv.sampleW (h : Inv l s.wtList s.wdataList s.charged s.reports) {wd : WData cfg} (hroom : s.wdataList.length < cfg.maxWdataDepth) :
    Inv { l with beats := l.beats ++ [wd] } (s.sampleW wd).wtList (s.sampleW wd).wdataList (s.sampleW wd).charged (s.sampleW wd).reports := by
  unfold Checker.sampleW
  rw [if_pos hroom]
  exact ⟨h.numbers, h.paired.datum wd, h.beat, h.wstrb, h.burst⟩

theorem Inv.report (h : Inv l s.wtList s.wdataList s.charged s.reports) {r : Report cfg} (hwstrb : ∀ a, r ≠ .wstrb a) (hburst : ∀ a, r ≠ .burst a) :
    Inv l (s.report r).wtList (s.report r).wdataList (s.report r).charged (s.report r).reports := by
  refine ⟨h.numbers, h.paired, h.beat, fun a => ?_, fun a => ?_⟩
  · refine Iff.trans ?_ (h.wstrb a)
    exact List.mem_append.trans (or_iff_left fun hin => hwstrb a (List.mem_singleton.1 hin).symm)
  · refine Iff.trans ?_ (h.burst a)
    exact List.mem_append.trans (or_iff_left fun hin => hburst a (List.mem_singleton.1 hin).symm)

theorem sampleB_lists (s : Checker cfg) (bid : BitVec 32) (bresp : BitVec 2) :
    (s.sampleB bid bresp).wtList = s.wtList ∧ (s.sampleB bid bresp).wdataList = s.wdataList := by
  unfold Checker.sampleB
  split
  · dsimp only
    split <;> exact ⟨rfl, rfl⟩
  · exact ⟨rfl, rfl⟩

theorem sampleAw_wdataList (s : Checker cfg) (a : Address cfg) : (s.sampleAw a).wdataList = s.wdataList := by
  unfold Checker.sampleAw
  split <;> rfl

theorem Inv.sampleB (h : Inv l s.wtList s.wdataList s.charged s.reports) (bid : BitVec 32) (bresp : BitVec 2) :
    Inv l (s.sampleB bid bresp).wtList (s.sampleB bid bresp).wdataList (s.sampleB bid bresp).charged (s.sampleB bid bresp).reports := by
  unfold Checker.sampleB
  split
  · dsimp only
    split
    · exact h.report (fun _ => nofun) (fun _ => nofun)
    · exact h
  · exact h.report (fun _ => nofun) (fun _ => nofun)

/-- **What an edge keeps.** -/
theorem Inv.wrCheck (h : Inv l s.wtList s.wdataList s.charged s.reports) {e : Edge cfg} (hfits : Fits ⟨s, l⟩ e)
    (hnumber : ∀ a ∈ e.aw, a.number = l.addrs.length) :
    Inv (l.accept e) (s.wrCheck e).wtList (s.wrCheck e).wdataList (s.wrCheck e).charged (s.wrCheck e).reports ∧
      Settled (s.wrCheck e).wtList (s.wrCheck e).wdataList := by
  obtain ⟨aw, w, b⟩ := e
  have haw : Inv { l with addrs := l.addrs ++ aw.toList } (aw.elim s s.sampleAw).wtList (aw.elim s s.sampleAw).wdataList
      (aw.elim s s.sampleAw).charged (aw.elim s s.sampleAw).reports ∧ (aw.elim s s.sampleAw).wdataList = s.wdataList := by
    cases aw with
    | none =>
      rw [Option.toList_none, List.append_nil]
      exact ⟨h, rfl⟩
    | some a => exact ⟨h.sampleAw (hfits.1 rfl) (hnumber a rfl), sampleAw_wdataList s a⟩
  obtain ⟨hinv, hqueue⟩ := haw
  unfold Checker.wrCheck Ledger.accept
  dsimp only
  generalize aw.elim s s.sampleAw = s₁ at hinv hqueue ⊢
  have hw : Inv ⟨l.addrs ++ aw.toList, l.beats ++ w.toList⟩ (w.elim s₁ s₁.sampleW).wtList (w.elim s₁ s₁.sampleW).wdataList
      (w.elim s₁ s₁.sampleW).charged (w.elim s₁ s₁.sampleW).reports := by
    cases w with
    | none =>
      rw [Option.toList_none, List.append_nil]
      exact hinv
    | some wd =>
      refine hinv.sampleW ?_
      rw [hqueue]
      exact hfits.2 rfl
  obtain ⟨hprocess, hsettled⟩ := hw.process
  cases b with
  | none => exact ⟨hprocess, hsettled⟩
  | some b =>
    obtain ⟨hwt, hwdata⟩ := sampleB_lists (w.elim s₁ s₁.sampleW).process b.1 b.2
    refine ⟨hprocess.sampleB b.1 b.2, ?_⟩
    change Settled (Checker.sampleB _ _ _).wtList (Checker.sampleB _ _ _).wdataList
    rw [hwt, hwdata]
    exact hsettled

end Edges

/-! ### Runs -/

/-- What holds along a run whose steps are fair. -/
structure Kept (s : State cfg) : Prop where
  inv : Inv s.ledger s.checker.wtList s.checker.wdataList s.checker.charged s.checker.reports
  settled : Settled s.checker.wtList s.checker.wdataList
  plain : ∀ a ∈ s.ledger.addrs, a.Plain
  ends : s.ledger.Ends

theorem Kept.init : Kept ({} : State cfg) := ⟨.init, fun _ => nofun, fun _ => nofun, fun _ _ _ h => nomatch h⟩

theorem Kept.step {s s' : State cfg} {e : Edge cfg} (h : Kept s) (hfair : Fair s e) (hs : step s e = some s') : Kept s' := by
  obtain ⟨hfits, hplain, hends⟩ := hfair
  unfold WrTx.step at hs
  split at hs
  · rename_i hnext
    obtain rfl := Option.some.inj hs
    have hnumber : ∀ a ∈ e.aw, a.number = s.ledger.addrs.length := fun a ha => beq_iff_eq.1 ((Option.all_eq_true _ _).1 hnext.1 a ha)
    obtain ⟨hinv, hsettled⟩ := h.inv.wrCheck hfits hnumber
    refine ⟨hinv, hsettled, fun a ha => ?_, hends⟩
    obtain hold | hnew := List.mem_append.1 ha
    · exact h.plain a hold
    · exact hplain a (Option.mem_toList.1 hnew)
  · cases hs

/-- The beats of a burst that ends in time. -/
theorem Ledger.Ends.le {l : Ledger cfg} (h : l.Ends) {κ : BitVec 32} {j n : ℕ} {a : Address cfg} {wd : WData cfg} (ha : (l.addrsOf κ)[j]? = some a)
    (hwd : (l.burstOf κ j)[n]? = some wd) : n ≤ a.awlen := by
  have hlt := (List.getElem?_eq_some_iff.1 hwd).1
  by_contra hover
  have hat : (l.burstOf κ j)[a.awlen]? = some (l.burstOf κ j)[a.awlen] := List.getElem?_eq_getElem (by omega)
  have hlen : (l.burstOf κ j).length = a.awlen + 1 := burst_last hat (h κ j a ha _ hat)
  omega

theorem Kept.judged {s : State cfg} (h : Kept s) : Judged s := by
  have hcharged : ∀ κ j a, (s.ledger.addrsOf κ)[j]? = some a → chargedTo a s.checker.charged = s.ledger.burstOf κ j := by
    intro κ j a ha
    refine h.inv.paired.settled ?_ ha
    by_cases hnone : ofKey WData.key κ s.checker.wdataList = []
    · exact .inr hnone
    · obtain ⟨wd, hwd⟩ := List.exists_mem_of_ne_nil _ hnone
      obtain ⟨hin, hkey⟩ := mem_ofKey.1 hwd
      refine .inl (ofKey_eq_nil fun b hb heq => ?_)
      obtain ⟨wt, hwt, rfl⟩ := List.mem_map.1 hb
      exact h.settled wt hwt wd hin (hkey.trans heq.symm)
  refine ⟨hcharged, fun κ j a ha => ?_, fun κ j a ha => ?_⟩
  · have hmem : a ∈ s.ledger.addrs := (mem_ofKey.1 (List.mem_of_getElem? ha)).1
    rw [h.inv.wstrb, hcharged κ j a ha]
    refine and_congr_right fun _ => exists_congr fun n => exists_congr fun wd => and_congr_right fun hwd => ?_
    exact checkWstrb_iff (h.plain a hmem) (h.ends.le ha hwd)
  · rw [h.inv.burst, hcharged κ j a ha]
    refine and_congr_right fun _ => exists_congr fun n => exists_congr fun wd => and_congr_right fun hwd => ?_
    rcases Nat.lt_or_eq_of_le (h.ends.le ha hwd) with hlt | rfl
    · rw [decide_eq_false hlt.ne, ne_eq, Bool.not_eq_false]
      exact and_iff_left hlt
    · rw [h.ends κ j a ha wd hwd, decide_eq_true rfl]
      exact iff_of_false (fun hover => lt_irrefl _ hover.2) fun hne => hne rfl

/-- An AXI4 bus of four bytes, with all checks on. -/
def fourBytes : Config where
  busBits := 2
  busBits_le := two_le_seven
  version := .axi4
  enWstrbCheck := true
  allowWstrbGaps := false
  enWrBurstsCheck := true
  enRespCheck := true
  maxDepth := 64

/-- The first address: one beat of two bytes. -/
def twoBytes : Address fourBytes where
  number := 0
  awid := 0
  awaddr := 0x1000
  awlen := 0
  awsize := 1
  awburst := .incr
  awlock := 0
  awsize_le := by decide

/-- A beat with strobes on all lanes. -/
def allLanes (wlast : Bool) : WData fourBytes where
  wid := 0
  wstrb := fun _ => true
  wlast := wlast

/-- Data before its address, with strobes outside its lanes. -/
def early : List (Edge fourBytes) := [{ w := some (allLanes true) }, { aw := some twoBytes }]

theorem ends_of_wlast {l : Ledger cfg} (h : ∀ wd ∈ l.beats, wd.wlast = true) : l.Ends := fun _ _ _ _ wd hwd =>
  h wd (mem_ofKey.1 (mem_of_mem_burst (List.mem_of_getElem? hwd))).1

theorem early_fair : RunOk step Fair {} early := by
  have hlast : ∀ wd ∈ [allLanes true], wd.wlast = true := fun wd hwd => (List.mem_singleton.1 hwd) ▸ rfl
  refine ⟨⟨⟨nofun, fun _ => by decide⟩, nofun, ends_of_wlast hlast⟩, fun s hs => ?_⟩
  obtain rfl := Option.some.inj hs
  refine ⟨⟨⟨fun _ => by decide, nofun⟩, fun a ha => ?_, ends_of_wlast hlast⟩, fun _ _ => trivial⟩
  obtain rfl := Option.some.inj ha
  exact trivial

/-- A burst that goes on after its last beat, with strobes that are accepted. -/
def long : List (Edge fourBytes) :=
  [{ aw := some twoBytes, w := some { allLanes false with wstrb := fun l => decide (l < 2) } },
    { w := some { allLanes true with wstrb := fun l => decide (2 ≤ l) } }]

example : (run step {} long).map (·.checker.reports) = some [] := by decide

end LibSystemCTLM.Axi.WrTx
