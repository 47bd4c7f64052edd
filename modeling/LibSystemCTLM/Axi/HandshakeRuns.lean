import LibSystemCTLM.Axi.HandshakeCounts

/-!
# The hangups that the handshake checker reports

The waits of a channel's monitor are those of the ledger: what is due stays due until its transfer, so that no wait is
taken up where another one stopped. With the counters this gives `Counted` in every legal run.
-/

namespace LibSystemCTLM.Axi.Handshakes

open Foundation Ace

variable {proto : Protocol} {maxClks : ℕ} {l : Ledger} {s : Checker} {e : Edge}

/-! ### What is due -/

/-- More beats of one list, in terms of the keys. -/
theorem any_count_lt {A T : List (BitVec 32)} : (T.any fun κ => decide (A.count κ < T.count κ)) = true ↔ ∃ κ ∈ T, A.count κ < T.count κ := by
  simp only [List.any_eq_true, decide_eq_true_eq]

theorem Ledger.Apart.symm (h : l.Apart) (κ κ' : BitVec 32) (hlt : l.announced.count κ < l.transferred.count κ) :
    l.announced.count κ' ≤ l.transferred.count κ' := not_lt.1 fun hmore => absurd (h κ' κ hmore) (not_le.2 hlt)

theorem completed_le (id : BitVec 32) : l.completed proto id ≤ l.addrs.count id := by
  unfold Ledger.completed
  split
  · exact min_le_left _ _
  · exact (List.take_sublist _ _).count_le id

/-- **A transfer is due where the counters say so.** -/
theorem Counts.incValid (h : Counts proto l s) (hapart : l.Apart) (c : Channel) : s.incValid c = l.due proto c := by
  rw [Bool.eq_iff_iff]
  cases c with
  | ar => exact Iff.rfl
  | r =>
    simp only [Checker.incValid, Ledger.due, h.rt]
  | aw =>
    unfold Checker.incValid Ledger.due
    rw [decide_eq_true_eq, any_count_lt, ← length_lt_iff hapart.symm, h.wd]
    omega
  | w =>
    unfold Checker.incValid Ledger.due
    rw [decide_eq_true_eq, any_count_lt, ← length_lt_iff hapart, h.wd]
    omega
  | b =>
    unfold Checker.incValid Ledger.due Ledger.unanswered
    rw [decide_eq_true_eq, h.b, List.any_eq_true]
    constructor
    · intro hpos
      obtain ⟨id, hmem⟩ := List.exists_mem_of_length_pos hpos
      have hcount : 0 < s.bids.count id := List.count_pos_iff.2 hmem
      have hid := h.bids id
      have hle : l.completed proto id ≤ l.addrs.count id := completed_le id
      refine ⟨id, List.count_pos_iff.1 ?_, decide_eq_true ?_⟩
      · rw [List.count_append]
        omega
      · omega
    · rintro ⟨id, _, hpos⟩
      rw [decide_eq_true_eq] at hpos
      have hid := h.bids id
      have hcount : 0 < s.bids.count id := by omega
      exact List.length_pos_of_mem (List.count_pos_iff.1 hcount)

theorem given_of_not {c : Channel} (h : e.transfer c = false) (ids : List (BitVec 32)) : Ledger.given e c ids = [] := by
  unfold Ledger.given
  rw [h]
  rfl

theorem completed_mono {x y : List (BitVec 32)} {l' : Ledger} (haddrs : l'.addrs = l.addrs ++ x) (hlasts : l'.lasts = l.lasts ++ y) (id : BitVec 32) :
    l.completed proto id ≤ l'.completed proto id := by
  unfold Ledger.completed
  rw [haddrs, hlasts]
  split
  · rw [List.count_append, List.count_append]
    exact min_le_min (Nat.le_add_right _ _) (Nat.le_add_right _ _)
  · refine List.Sublist.count_le id (List.IsPrefix.sublist (List.prefix_take_iff.2 ⟨?_, ?_⟩))
    · exact (List.take_prefix _ _).trans (List.prefix_append _ _)
    · rw [List.length_append]
      exact (List.length_take_le _ _).trans (Nat.le_add_right _ _)

/-- What is due stays due until its transfer. -/
theorem due_accept {c : Channel} (h : l.due proto c = true) (hnone : e.transfer c = false) : (l.accept proto maxClks e).due proto c = true := by
  cases c with
  | ar => cases h
  | r =>
    have hpos : 0 < l.owed := of_decide_eq_true h
    have hstay : (l.accept proto maxClks e).owed = l.owed + if e.transfer .ar = true then e.readBeats proto else 0 := by
      unfold Ledger.accept
      rw [hnone]
      rfl
    exact decide_eq_true (by omega)
  | aw =>
    obtain ⟨κ, hκ, hlt⟩ := any_count_lt.1 h
    refine any_count_lt.2 ⟨κ, List.mem_append_left _ hκ, ?_⟩
    have hsame : (l.accept proto maxClks e).announced = l.announced := by
      unfold Ledger.accept
      rw [given_of_not hnone, List.append_nil]
    have hmore : (l.accept proto maxClks e).transferred.count κ = l.transferred.count κ + _ := List.count_append
    rw [hsame, hmore]
    omega
  | w =>
    obtain ⟨κ, hκ, hlt⟩ := any_count_lt.1 h
    refine any_count_lt.2 ⟨κ, List.mem_append_left _ hκ, ?_⟩
    have hsame : (l.accept proto maxClks e).transferred = l.transferred := by
      unfold Ledger.accept
      rw [given_of_not hnone, List.append_nil]
    have hmore : (l.accept proto maxClks e).announced.count κ = l.announced.count κ + _ := List.count_append
    rw [hsame, hmore]
    omega
  | b =>
    obtain ⟨id, hmem, hpos⟩ := List.any_eq_true.1 h
    have hsame : (l.accept proto maxClks e).answered = l.answered := by
      unfold Ledger.accept
      rw [given_of_not hnone, List.append_nil]
    have hcompleted : l.completed proto id ≤ (l.accept proto maxClks e).completed proto id := completed_mono rfl rfl id
    have hdataless : (l.accept proto maxClks e).dataless.count id = l.dataless.count id + _ := List.count_append
    refine List.any_eq_true.2 ⟨id, ?_, decide_eq_true ?_⟩
    · exact List.mem_append.2 ((List.mem_append.1 hmem).imp (List.mem_append_left _) (List.mem_append_left _))
    · have hbefore := of_decide_eq_true hpos
      unfold Ledger.unanswered at hbefore ⊢
      rw [hsame]
      omega

/-! ### Waits -/

structure Waits (proto : Protocol) (l : Ledger) (s : Checker) : Prop where
  valid : ∀ c, (s.monitors c).validWait.toNat = l.dueFor c
  ready : ∀ c, (s.monitors c).readyWait.toNat = l.pendingFor c
  due : ∀ c, 0 < l.dueFor c → l.due proto c = true

/-- What the monitor of a channel does at an edge. -/
theorem Waits.monitored (h : Waits proto l s) (maxClks : ℕ) (hinc : ∀ c, s.incValid c = l.due proto c) {c : Channel}
    (hsmall : l.dueFor c + 1 < 2 ^ 32 ∧ l.pendingFor c + 1 < 2 ^ 32) (hkept : e.valid c = false → l.pendingFor c = 0) :
    (s.monitored maxClks e c).1.validWait.toNat = (l.waits proto e c).1 ∧
      (s.monitored maxClks e c).1.readyWait.toNat = (l.waits proto e c).2 ∧ (s.monitored maxClks e c).2 = l.hangups proto maxClks e c := by
  have hvalid := h.valid c
  have hready := h.ready c
  unfold Checker.monitored Monitor.run Ledger.waits Ledger.hangups
  rw [hinc]
  cases hv : e.valid c with
  | false =>
    have hnone : (s.monitors c).readyWait = 0 := by
      rw [hkept hv] at hready
      exact BitVec.eq_of_toNat_eq hready
    cases hdue : l.due proto c with
    | true =>
      have hnext : ((s.monitors c).validWait.toNat + 1) % 4294967296 = l.dueFor c + 1 := by
        rw [hvalid]
        exact Nat.mod_eq_of_lt hsmall.1
      simp [Monitor.incValidW, hnext, hnone]
    | false =>
      have hzero : l.dueFor c = 0 := by
        by_contra hpos
        rw [h.due c (Nat.pos_of_ne_zero hpos)] at hdue
        cases hdue
      simp [hnone, hvalid, hzero]
  | true =>
    cases hr : e.ready c with
    | false =>
      have hnext : ((s.monitors c).readyWait.toNat + 1) % 4294967296 = l.pendingFor c + 1 := by
        rw [hready]
        exact Nat.mod_eq_of_lt hsmall.2
      simp [Monitor.incReadyW, hnext, hvalid]
    | true => exact ⟨rfl, rfl, rfl⟩

/-- The counters of an edge touch no monitor. -/
theorem edge_monitors (proto : Protocol) (maxClks : ℕ) (e : Edge) (s : Checker) : (s.edge proto maxClks e).monitors = (s.monitor maxClks e).monitors ∧
    (s.edge proto maxClks e).reports = (s.monitor maxClks e).reports := by
  have hon : ∀ (u : Checker) (c : Channel) (f : Edge → Checker → Checker),
      ((f e u).monitors = u.monitors ∧ (f e u).reports = u.reports) → (u.on e c f).monitors = u.monitors ∧ (u.on e c f).reports = u.reports := by
    intro u c f hf
    unfold Checker.on
    split
    · exact hf
    · exact ⟨rfl, rfl⟩
  have haw : ∀ u : Checker, (u.awHandshake proto e).monitors = u.monitors ∧ (u.awHandshake proto e).reports = u.reports := by
    intro u
    unfold Checker.awHandshake
    dsimp only
    split_ifs <;> exact ⟨rfl, rfl⟩
  have hw : ∀ u : Checker, (u.wHandshake proto e).monitors = u.monitors ∧ (u.wHandshake proto e).reports = u.reports := by
    intro u
    unfold Checker.wHandshake
    dsimp only
    split_ifs <;> exact ⟨rfl, rfl⟩
  have hb : ∀ u : Checker, (u.bHandshake e).monitors = u.monitors ∧ (u.bHandshake e).reports = u.reports := by
    intro u
    unfold Checker.bHandshake
    split <;> exact ⟨rfl, rfl⟩
  have h₁ := hon (s.monitor maxClks e) .ar (Checker.arHandshake proto) ⟨rfl, rfl⟩
  have h₂ := hon ((s.monitor maxClks e).on e .ar (Checker.arHandshake proto)) .r (fun _ => Checker.rrHandshake) ⟨rfl, rfl⟩
  have h₃ := hon _ .aw (Checker.awHandshake proto) (haw (((s.monitor maxClks e).on e .ar (Checker.arHandshake proto)).on e .r fun _ => Checker.rrHandshake))
  have h₄ := hon _ .w (Checker.wHandshake proto) (hw (s.toAw proto maxClks e))
  have h₅ := hon _ .b Checker.bHandshake (hb ((s.toAw proto maxClks e).on e .w (Checker.wHandshake proto)))
  exact ⟨h₅.1.trans (h₄.1.trans (h₃.1.trans (h₂.1.trans h₁.1))), h₅.2.trans (h₄.2.trans (h₃.2.trans (h₂.2.trans h₁.2)))⟩

/-! ### Runs -/

/-- The keys where there are no IDs of data. -/
def ZeroKeys (proto : Protocol) (l : Ledger) : Prop := proto ≠ .axi3 → (∀ κ ∈ l.announced, κ = 0) ∧ ∀ κ ∈ l.transferred, κ = 0

theorem ZeroKeys.apart (h : ZeroKeys proto l) (hproto : proto ≠ .axi3) : l.Apart := by
  intro κ κ' hlt
  have hκ : κ = 0 := (h hproto).1 κ (List.count_pos_iff.1 (by omega))
  by_cases hκ' : κ' = 0
  · rw [hκ', ← hκ]
    exact hlt.le
  · rw [List.count_eq_zero.2 fun hin => hκ' ((h hproto).2 κ' hin)]
    exact Nat.zero_le _

theorem mem_given {c : Channel} {ids : List (BitVec 32)} {id : BitVec 32} (h : id ∈ Ledger.given e c ids) : id ∈ ids := by
  unfold Ledger.given at h
  split at h
  · exact h
  · cases h

theorem ZeroKeys.accept (h : ZeroKeys proto l) : ZeroKeys proto (l.accept proto maxClks e) := by
  intro hproto
  have hzero : ∀ id, keyOf proto id = 0 := fun id => if_neg hproto
  refine ⟨fun κ hκ => ?_, fun κ hκ => ?_⟩
  · obtain hold | hnew := List.mem_append.1 hκ
    · exact (h hproto).1 κ hold
    · have hin := mem_given hnew
      split at hin
      · rw [(List.mem_replicate.1 hin).2, hzero]
      · cases hin
  · obtain hold | hnew := List.mem_append.1 hκ
    · exact (h hproto).2 κ hold
    · rw [List.mem_singleton.1 (mem_given hnew), hzero]

/-- What holds along a run whose steps are fair. -/
structure Inv (proto : Protocol) (s : State) : Prop where
  counts : Counts proto s.ledger s.checker
  waits : Waits proto s.ledger s.checker
  keys : ZeroKeys proto s.ledger
  apart : s.ledger.Apart
  hangs : s.checker.reports = s.ledger.hangs

theorem Inv.restart (reports : List Report) : Inv proto ⟨{ reports := reports }, { hangs := reports }⟩ := by
  refine ⟨⟨rfl, rfl, rfl, fun id => ?_, ⟨fun _ => ⟨rfl, rfl, fun _ => ⟨rfl, rfl⟩⟩, fun _ => ⟨rfl, rfl, rfl⟩⟩⟩,
    ⟨fun _ => rfl, fun _ => rfl, fun _ h => absurd h (lt_irrefl 0)⟩, fun _ => ⟨nofun, nofun⟩, fun _ _ _ => Nat.zero_le _, rfl⟩
  unfold Ledger.completed
  split <;> rfl

theorem Inv.edge {s : State} (h : Inv proto s) (hfair : Fair proto maxClks s (.edge e)) :
    Inv proto ⟨s.checker.edge proto maxClks e, s.ledger.accept proto maxClks e⟩ := by
  obtain ⟨⟨_, hb, hkept⟩, hbeats, hsmall, haxi3⟩ := hfair
  have hinc := h.counts.incValid h.apart
  have hmonitored := fun c => h.waits.monitored maxClks hinc (hsmall c) (hkept c)
  obtain ⟨hmonitors, hreports⟩ := edge_monitors proto maxClks e s.checker
  refine ⟨?_, ⟨fun c => ?_, fun c => ?_, fun c hpos => ?_⟩, h.keys.accept, ?_, ?_⟩
  · refine h.counts.edge (fun htransfer => hb ?_) hbeats fun h3 => (haxi3 h3).1
    exact (Bool.and_eq_true_iff.1 htransfer).1
  · rw [hmonitors]
    exact (hmonitored c).1
  · rw [hmonitors]
    exact (hmonitored c).2.1
  · have hwait : 0 < (s.ledger.waits proto e c).1 := hpos
    have hnone : e.transfer c = false ∧ s.ledger.due proto c = true := by
      unfold Ledger.waits at hwait
      unfold Edge.transfer
      split at hwait
      · rename_i hv
        rw [hv]
        split at hwait
        · exact ⟨rfl, ‹_›⟩
        · exact absurd hwait (lt_irrefl 0)
      · split at hwait
        · rename_i hr
          rw [hr, Bool.and_false]
          exact ⟨rfl, h.waits.due c hwait⟩
        · exact absurd hwait (lt_irrefl 0)
    exact due_accept hnone.2 hnone.1
  · by_cases hproto : proto = .axi3
    · exact (haxi3 hproto).2
    · exact h.keys.accept.apart hproto
  · rw [hreports]
    change s.checker.reports ++ channels.flatMap _ = s.ledger.hangs ++ channels.flatMap _
    rw [h.hangs]
    congr 2
    funext c
    exact (hmonitored c).2.2

theorem Inv.step {s s' : State} {a : Act} (h : Inv proto s) (hfair : Fair proto maxClks s a) (hs : step proto maxClks s a = some s') : Inv proto s' := by
  cases a with
  | edge e =>
    cases hs
    exact h.edge hfair
  | reset =>
    cases hs
    have hrestart : Inv proto _ := Inv.restart s.checker.reports
    unfold Checker.reset Ledger.reset
    rw [← h.hangs]
    exact hrestart

theorem Inv.counted {s : State} (h : Inv proto s) : Counted proto s := by
  refine ⟨h.counts.rt, h.counts.wd, h.counts.b, fun id => ?_, h.hangs⟩
  have hid := h.counts.bids id
  unfold Ledger.unanswered
  omega

/-- Transfers on some channels, and nothing on the others. -/
def transfersOn (cs : List Channel) : Edge where
  valid c := decide (c ∈ cs)
  ready _ := true

/-- An address, its beat and its response. -/
def oneWrite : List Act := [.edge (transfersOn [.aw]), .edge { transfersOn [.w] with wlast := true }, .edge (transfersOn [.b])]

theorem legal_of_write {s : State} (hr : e.valid .r = false) (hb : e.valid .b = false) (hnone : ∀ c, s.ledger.pendingFor c = 0) :
    Legal proto s (.edge e) := by
  refine ⟨fun h => ?_, fun h => ?_, fun c _ => hnone c⟩
  · rw [hr] at h
    cases h
  · rw [hb] at h
    cases h

theorem oneWrite_fair : RunOk (step .axi4 100) (Fair .axi4 100) {} oneWrite := by
  refine ⟨⟨legal_of_write rfl rfl fun _ => rfl, nofun, fun c => by cases c <;> decide, nofun⟩, fun s hs => ?_⟩
  obtain rfl := Option.some.inj hs
  refine ⟨⟨legal_of_write rfl rfl fun c => by cases c <;> rfl, nofun, fun c => by cases c <;> decide, nofun⟩, fun s hs => ?_⟩
  obtain rfl := Option.some.inj hs
  exact ⟨⟨⟨nofun, fun _ => by decide, fun c _ => by cases c <;> rfl⟩, nofun, fun c => by cases c <;> decide, nofun⟩, fun _ _ => trivial⟩

/-- One ID's address waits for its second beat when another's data has come before its address. -/
def crossed : List Act :=
  [.edge { transfersOn [.aw] with awid := 1, awlen := 1 }, .edge { transfersOn [.w] with wid := 1 },
    .edge { transfersOn [.w] with wid := 2, wlast := true }, .edge { transfersOn [.aw] with awid := 2 }]

end LibSystemCTLM.Axi.Handshakes
