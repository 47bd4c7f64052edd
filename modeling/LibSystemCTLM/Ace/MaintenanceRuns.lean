import LibSystemCTLM.Ace.Maintenance

/-!
# Cache maintenance among loads and stores

The masters of `Master`, which send maintenance operations too (`b_transport` of `cache-ace.h`). While an operation waits for its
`WriteClean`, its cache answers no snoop.

An operation that has been returned leaves a record of what the memory was, and which stores there were by then. All runs with steps
that meet `MaintStep` are sound: loads are coherent, and each operation has left the latest bytes in the memory (`sound_of_reach`).
`CleanInvalid` has to find nothing dirty in its own cache which the memory does not have (`coh_maintain_iff`), an operation that is
forwarded must reach what is dirty (`memory_iff_reaches`), and one that snoops is about one line: the interconnect returns it when the
first is done, and goes on with a transaction that is gone.
-/

namespace LibSystemCTLM.Ace

open Foundation Foundation.Coherence Cache

variable {N : ℕ} {ls : LineSize}

/-- An operation that was returned: the memory and the trace by then. -/
structure Completion (N : ℕ) where
  maintenance : Maintenance
  mem : Addr → Byte
  trace : List (Event N)

/-- The system, and the maintenance operations under way. -/
structure MaintSys (N : ℕ) where
  sys : Sys N
  ongoing : Fin N → Option (Maintenance × MaintPhase) := fun _ => none
  completed : List (Completion N) := []

/-- What can happen next. -/
inductive MaintAction (N : ℕ) where
  /-- A load or a store goes on. -/
  | base (a : Action N)
  /-- The master at the port sends a maintenance operation. -/
  | maintain (port : Fin N) (m : Maintenance)
  /-- The transaction that it waits for is carried out. -/
  | exec (port : Fin N) (order : List (Fin N))

namespace MaintSys

variable (ls) (s : MaintSys N)

/-- `write_ongoing`, of a maintenance operation. -/
def writeOngoing (i : Fin N) : Bool := (s.ongoing i).any fun o => decide (o.2 = .writeclean)

/-- `write_ongoing`. -/
def waiting (i : Fin N) : Bool := s.sys.waiting i || s.writeOngoing i

/-- A cache runs one payload at a time (`m_mutex`), and answers no snoop while it writes. -/
def enabled : Action N → Bool
  | .begin port _ => (s.ongoing port).isNone
  | .exec port _ => (s.sys.ops port).all fun op =>
      !(op.transaction ls port (s.sys.caches port)).isSnoopingTransaction || decide (∀ i, i ≠ port → s.writeOngoing i = false)
  | .releaseLock => true

/-- The cache has been changed. -/
def setCache (port : Fin N) (c : Cache) (o : Option (Maintenance × MaintPhase)) : MaintSys N :=
  { s with
    sys := { s.sys with caches := Function.update s.sys.caches port c }
    ongoing := Function.update s.ongoing port o }

/-- The operation has been returned. -/
def complete (port : Fin N) (m : Maintenance) (sys' : Sys N) : MaintSys N where
  sys := sys'
  ongoing := Function.update s.ongoing port none
  completed := ⟨m, sys'.mem, sys'.trace⟩ :: s.completed

/-- One step of the system. -/
def step : MaintAction N → Option (MaintSys N)
  | .base a => if s.enabled ls a then (s.sys.step ls a).map fun sys' => { s with sys := sys' } else none
  | .maintain port m =>
    if (s.sys.ops port).isNone && (s.ongoing port).isNone then
      let r := (s.sys.caches port).doCacheMaintenance ls m
      some (s.setCache port r.1 (some (m, r.2)))
    else none
  | .exec port order =>
    match s.ongoing port with
    | none => none
    | some (m, .writeclean) =>
      (bTransport ls s.waiting order s.sys.caches s.sys.exmon s.sys.mem port
        (m.writecleanTransaction ls port (s.sys.caches port))).map fun acc =>
          { s with sys := s.sys.accept port acc }.setCache port ((acc.caches port).writeclean ls m.address acc.tr) (some (m, .forward))
    | some (m, .forward) =>
      (bTransport ls s.waiting order s.sys.caches s.sys.exmon s.sys.mem port (m.transaction port)).map fun acc =>
        s.complete port m (s.sys.accept port acc)

/-- The condition on a step. -/
def MaintStep : MaintAction N → Prop
  | .base a => s.sys.CoherentStep ls a
  | .maintain port m => m.kind = .cleanShared ∨ m.kind = .cleanInvalid ∧ (s.sys.caches port).Written ls s.sys.mem m
  | .exec port _ => ∀ m, s.ongoing port = some (m, .forward) →
      m.Reaches ls s.sys.caches s.sys.mem port ∧ (m.snoops = true → ∀ a, m.Covers ls a → ls.getTag a = ls.getTag m.address)

/-- **No store is lost**: what a load returns is a latest store, and what an operation has covered is in the memory when it is returned. -/
structure Sound (mem₀ : Addr → Byte) : Prop where
  coherent : Coherent mem₀ s.sys.trace
  completed : ∀ c ∈ s.completed, ∀ a, c.maintenance.Covers ls a → c.mem a = flat mem₀ c.trace a

/-- The system at reset. -/
def init (cacheSz : Fin N → ℕ) (buffers : Fin N → ℕ → ℕ → Byte) (mem : Addr → Byte) : MaintSys N where
  sys := Sys.init cacheSz buffers mem

end MaintSys

/-! ### What the other caches notice -/

section Others

variable {waiting : Fin N → Bool} {order : List (Fin N)} {caches : Fin N → Cache} {mon : PosMonitor N} {mem : Addr → Byte}
  {port i : Fin N} {tr : Transaction} {acc : Accepted N}

/-- A transaction changes another cache by a snoop at most, which it must be free to answer. -/
theorem bTransport_others (h : bTransport ls waiting order caches mon mem port tr = some acc) (hi : i ≠ port) :
    acc.caches i = caches i ∨
      tr.isSnoopingTransaction = true ∧ waiting i = false ∧
        ∃ ac a sec, acc.caches i = (snoopAnswer ls ac a sec (caches i)).1 := by
  unfold bTransport at h
  split at h
  · obtain rfl := Option.some.inj h
    exact .inl rfl
  · split at h
    · rename_i hs
      dsimp only at h
      split at h
      · obtain rfl := Option.some.inj h
        exact .inl rfl
      · split at h
        · rename_i hguard
          obtain rfl := Option.some.inj h
          have hmem := (hguard.1 i).2 hi
          rw [processSnoop_eq ls hguard.2.1]
          exact .inr ⟨hs, hguard.2.2 i hmem, _, _, _, if_pos hmem⟩
        · cases h
    · obtain rfl := Option.some.inj h
      exact .inl rfl

theorem snoopAnswer_clean {c : Cache} {b : Addr} (hd : (c.getLine ls b).dirty = false) (ac : AC) (a : Addr) (sec : Bool) :
    ((snoopAnswer ls ac a sec c).1.getLine ls b).dirty = false := by
  rw [getLine_snoopAnswer]
  split
  · cases ac <;> first | exact hd | rfl
  · exact hd

end Others

/-! ### The invariant -/

/-- What an operation under way knows of its own copy: it is there, or no longer dirty. -/
def MaintPhase.Ok (ls : LineSize) (c : Cache) (m : Maintenance) : MaintPhase → Prop
  | .writeclean => c.inCache ls m.address m.genattr.secure = true
  | .forward => c.inCache ls m.address m.genattr.secure = true → (c.getLine ls m.address).dirty = false

/-- The invariant of sound runs. -/
structure MaintInv (ls : LineSize) (mem₀ : Addr → Byte) (s : MaintSys N) : Prop where
  base : CohInv ls mem₀ s.sys
  held : ∀ {i m p}, s.ongoing i = some (m, p) → m.kind ≠ .makeInvalid ∧ s.sys.ops i = none ∧ p.Ok ls (s.sys.caches i) m
  completed : ∀ c ∈ s.completed, ∀ a, c.maintenance.Covers ls a → c.mem a = flat mem₀ c.trace a

section Step

variable {mem₀ : Addr → Byte} {s s' : MaintSys N} {port : Fin N} {m : Maintenance}

theorem MaintPhase.Ok.snoopAnswer {c : Cache} (h : MaintPhase.forward.Ok ls c m) (ac : AC) (a : Addr) (sec : Bool) :
    MaintPhase.forward.Ok ls (snoopAnswer ls ac a sec c).1 m := fun hin =>
  snoopAnswer_clean (h (inCache_snoopAnswer ls c hin)) ac a sec

/-- The transaction of another port leaves an operation what it knows. -/
theorem MaintInv.ok_others {waiting : Fin N → Bool} {order : List (Fin N)} {tr : Transaction} {acc : Accepted N} {i : Fin N} {p : MaintPhase}
    (h : MaintInv ls mem₀ s) (hacc : bTransport ls waiting order s.sys.caches s.sys.exmon s.sys.mem port tr = some acc) (hi : i ≠ port)
    (ho : s.ongoing i = some (m, p)) (hw : tr.isSnoopingTransaction = true → waiting i = false → p ≠ .writeclean) :
    p.Ok ls (acc.caches i) m := by
  have hok := (h.held ho).2.2
  rcases bTransport_others hacc hi with heq | ⟨hs, hwait, ac, a, sec, heq⟩
  · rwa [heq]
  · rw [heq]
    cases p with
    | writeclean => exact absurd rfl (hw hs hwait)
    | forward => exact hok.snoopAnswer ac a sec

/-- A load or a store that goes on leaves the operations what they know. -/
theorem MaintInv.held_base {a : Action N} {sys' : Sys N} (h : MaintInv ls mem₀ s) (hen : s.enabled ls a = true)
    (hstep : s.sys.step ls a = some sys') {i : Fin N} {p : MaintPhase} (ho : s.ongoing i = some (m, p)) :
    sys'.ops i = none ∧ p.Ok ls (sys'.caches i) m := by
  obtain ⟨-, hop, hok⟩ := h.held ho
  cases a with
  | begin port gp =>
    obtain ⟨-, rfl⟩ := Sys.step_begin hstep
    have hi : i ≠ port := by
      rintro rfl
      rw [MaintSys.enabled, ho] at hen
      cases hen
    simp only [Sys.setLocal, Function.update_of_ne hi]
    exact ⟨hop, hok⟩
  | exec port order =>
    obtain ⟨op, acc, hopp, hacc, rfl⟩ := Sys.step_exec hstep
    have hi : i ≠ port := by
      rintro rfl
      rw [hop] at hopp
      cases hopp
    simp only [Sys.setLocal, Function.update_of_ne hi, Sys.accept]
    refine ⟨hop, h.ok_others hacc hi ho fun hs _ hp => ?_⟩
    -- no port writes while another one snoops
    rw [MaintSys.enabled, hopp, Option.all_some, hs, Bool.not_true, Bool.false_or, decide_eq_true_eq] at hen
    have hno := hen i hi
    rw [MaintSys.writeOngoing, ho, hp] at hno
    cases hno
  | releaseLock =>
    obtain rfl := Option.some.inj hstep
    exact ⟨hop, hok⟩

/-- The invariant of the loads and the stores, after the cache of a port without any has been changed. -/
theorem CohInv.setCache {t : Sys N} {c : Cache} (h : CohInv ls mem₀ t) (hop : t.ops port = none)
    (hcoh : Coh ls (Function.update t.caches port c) t.mem (flat mem₀ t.trace)) :
    CohInv ls mem₀ { t with caches := Function.update t.caches port c } := by
  have hne : ∀ {i op}, t.ops i = some op → i ≠ port := by
    rintro i op hi rfl
    rw [hop] at hi
    cases hi
  refine ⟨⟨hcoh.owned, hcoh.shape, fun i op hi => ?_⟩, hcoh, h.coherent, fun i op hi => ?_⟩
  · dsimp only
    rw [Function.update_of_ne (hne hi)]
    exact h.own.fits i op hi
  · dsimp only
    rw [Function.update_of_ne (hne hi)]
    exact h.ops i op hi

variable (mem₀) in
theorem accept_trace (t : Sys N) (port : Fin N) (acc : Accepted N) :
    flat mem₀ (t.accept port acc).trace = flat mem₀ t.trace ∧ (Coherent mem₀ t.trace → Coherent mem₀ (t.accept port acc).trace) ∧
      ∀ i, SinceBegin i (t.accept port acc).trace t.trace := by
  unfold Sys.accept
  cases acc.snooped with
  | none => exact ⟨rfl, id, fun i => .refl i _⟩
  | some ac => exact ⟨rfl, fun h => h.cons (by simp), fun i => .cons (by simp) (.refl i _)⟩

/-- The same, after a transaction of a port without any was carried out. -/
theorem CohInv.accept {t : Sys N} {waiting : Fin N → Bool} {order : List (Fin N)} {tr : Transaction} {acc : Accepted N}
    (h : CohInv ls mem₀ t) (hop : t.ops port = none)
    (hacc : bTransport ls waiting order t.caches t.exmon t.mem port tr = some acc)
    (hwait : ∀ i, waiting i = false → t.waiting i = false)
    (hcoh : Coh ls acc.caches acc.mem (flat mem₀ t.trace)) : CohInv ls mem₀ (t.accept port acc) := by
  obtain ⟨hflat, hcoherent, hsince⟩ := accept_trace mem₀ t port acc
  have hne : ∀ {i op}, t.ops i = some op → i ≠ port := by
    rintro i op hi rfl
    rw [hop] at hi
    cases hi
  refine ⟨⟨hcoh.owned, hcoh.shape, fun i op hi => ?_⟩, ?_, hcoherent h.coherent, fun i op hi => ?_⟩
  · have hfits := h.own.fits i op hi
    rcases bTransport_others hacc (hne hi) with heq | ⟨-, -, ac, a, sec, heq⟩
    · rwa [show (t.accept port acc).caches i = t.caches i from heq]
    · rw [show (t.accept port acc).caches i = (snoopAnswer ls ac a sec (t.caches i)).1 from heq]
      exact hfits.snoopAnswer ls ac a sec
  · rw [hflat]
    exact hcoh
  · have hok := h.ops i op hi
    rcases bTransport_others hacc (hne hi) with heq | ⟨-, hw, ac, a, sec, heq⟩
    · rw [show (t.accept port acc).caches i = t.caches i from heq]
      exact hok.mono (hsince i) hok.slot fun _ hm => hm
    · rw [show (t.accept port acc).caches i = (snoopAnswer ls ac a sec (t.caches i)).1 from heq]
      refine hok.snoopAnswer (hsince i) ?_ ac a sec
      have hi' : t.ops i = some op := hi
      simpa [Sys.waiting, hi'] using hwait i hw

/-- The operations after one port has gone on. -/
theorem MaintInv.held_update {t : Sys N} {o : Option (Maintenance × MaintPhase)}
    (hport : ∀ m p, o = some (m, p) → m.kind ≠ .makeInvalid ∧ t.ops port = none ∧ p.Ok ls (t.caches port) m)
    (hothers : ∀ i ≠ port, ∀ m p, s.ongoing i = some (m, p) → m.kind ≠ .makeInvalid ∧ t.ops i = none ∧ p.Ok ls (t.caches i) m)
    {i : Fin N} {p : MaintPhase} (ho : Function.update s.ongoing port o i = some (m, p)) :
    m.kind ≠ .makeInvalid ∧ t.ops i = none ∧ p.Ok ls (t.caches i) m := by
  by_cases hi : i = port
  · subst hi
    rw [Function.update_self] at ho
    exact hport m p ho
  · rw [Function.update_of_ne hi] at ho
    exact hothers i hi m p ho

theorem MaintInv.maintain (h : MaintInv ls mem₀ s) (hop : s.sys.ops port = none) (hk : m.kind ≠ .makeInvalid)
    (hw : m.kind ≠ .cleanShared → (s.sys.caches port).Written ls s.sys.mem m) :
    MaintInv ls mem₀ (s.setCache port ((s.sys.caches port).doCacheMaintenance ls m).1
      (some (m, ((s.sys.caches port).doCacheMaintenance ls m).2))) := by
  refine ⟨h.base.setCache hop (h.base.coh.doCacheMaintenance hw), fun ho => ?_, h.completed⟩
  refine MaintInv.held_update (fun m' p ho => ?_) (fun i hi m' p ho => ?_) ho
  · obtain ⟨rfl, rfl⟩ := Prod.mk.inj (Option.some.inj ho)
    refine ⟨hk, hop, ?_⟩
    simp only [MaintSys.setCache, Function.update_self]
    cases hphase : ((s.sys.caches port).doCacheMaintenance ls m).2 with
    | writeclean =>
      obtain ⟨-, hin, heq⟩ := Cache.doCacheMaintenance_writeclean hphase
      rw [heq]
      exact hin
    | forward => exact Cache.doCacheMaintenance_forward hphase
  · simp only [MaintSys.setCache, Function.update_of_ne hi]
    exact h.held ho

/-- The `WriteClean` of an operation. -/
theorem MaintInv.writeclean {order : List (Fin N)} {acc : Accepted N} (h : MaintInv ls mem₀ s)
    (ho : s.ongoing port = some (m, .writeclean))
    (hacc : bTransport ls s.waiting order s.sys.caches s.sys.exmon s.sys.mem port
      (m.writecleanTransaction ls port (s.sys.caches port)) = some acc) :
    MaintInv ls mem₀ ({ s with sys := s.sys.accept port acc }.setCache port ((acc.caches port).writeclean ls m.address acc.tr)
      (some (m, .forward))) := by
  obtain ⟨hk, hop, hin⟩ := h.held ho
  obtain ⟨hv, -⟩ := (inCache_eq_true ls (s.sys.caches port)).1 hin
  obtain rfl := bTransport_write (.inr rfl) rfl hacc
  obtain ⟨hcoh, hline⟩ := h.base.coh.writeMem (x := (s.sys.caches port).lineIndex ls m.address) hv
  have hbase := h.base.accept hop hacc (fun i hi => (Bool.or_eq_false_iff.1 hi).1) hcoh
  have hwc : (s.sys.caches port).writeclean ls m.address
      { m.writecleanTransaction ls port (s.sys.caches port) with response := .ok } =
        (s.sys.caches port).setLine ls m.address { (s.sys.caches port).getLine ls m.address with dirty := false } := if_pos rfl
  refine ⟨hbase.setCache hop ?_, fun ho' => ?_, h.completed⟩
  · dsimp only [Sys.accept]
    rw [hwc]
    exact hcoh.setLine_clean (fun hv' => ⟨hv', rfl, rfl, rfl, rfl, rfl⟩) hline
  · refine MaintInv.held_update (fun m' p ho' => ?_) (fun i hi m' p ho' => ?_) ho'
    · obtain ⟨rfl, rfl⟩ := Prod.mk.inj (Option.some.inj ho')
      refine ⟨hk, hop, fun _ => ?_⟩
      simp only [MaintSys.setCache, Function.update_self]
      rw [hwc, getLine_setLine_self]
    · simp only [MaintSys.setCache, Function.update_of_ne hi]
      exact h.held ho'

theorem MaintInv.forward {order : List (Fin N)} {acc : Accepted N} (h : MaintInv ls mem₀ s) (ho : s.ongoing port = some (m, .forward))
    (hreach : m.Reaches ls s.sys.caches s.sys.mem port)
    (hacc : bTransport ls s.waiting order s.sys.caches s.sys.exmon s.sys.mem port (m.transaction port) = some acc) :
    MaintInv ls mem₀ (s.complete port m (s.sys.accept port acc)) := by
  obtain ⟨hk, hop, hclean⟩ := h.held ho
  have hcoh : Coh ls acc.caches acc.mem (flat mem₀ s.sys.trace) := by
    cases hs : m.snoops with
    | false =>
      obtain ⟨hc, -, hm⟩ := bTransport_quiet hs hacc
      rw [hc, hm]
      exact h.base.coh
    | true => exact h.base.coh.cleaned (bTransport_cleaned hs hacc) hk
  refine ⟨h.base.accept hop hacc (fun i hi => (Bool.or_eq_false_iff.1 hi).1) hcoh, fun ho' => ?_, fun c hc a ha => ?_⟩
  · refine MaintInv.held_update (o := none) (fun _ _ ho' => nomatch ho') (fun i hi m' p ho' => ?_) ho'
    obtain ⟨hk', hop', -⟩ := h.held ho'
    refine ⟨hk', hop', h.ok_others hacc hi ho' fun _ hw hp => ?_⟩
    rw [MaintSys.waiting, MaintSys.writeOngoing, ho', hp] at hw
    exact absurd (Bool.or_eq_false_iff.1 hw).2 nofun
  · rcases List.mem_cons.1 hc with rfl | hc
    · dsimp only at ha ⊢
      rw [(accept_trace mem₀ s.sys port acc).1]
      exact (memory_iff_reaches h.base.coh hk hclean hacc).2 hreach a ha
    · exact h.completed c hc a ha

/-- **One step keeps the invariant.** -/
theorem MaintInv.step {a : MaintAction N} (h : MaintInv ls mem₀ s) (hok : s.MaintStep ls a) (hstep : s.step ls a = some s') :
    MaintInv ls mem₀ s' := by
  cases a with
  | base a =>
    simp only [MaintSys.step] at hstep
    split at hstep
    · rename_i hen
      obtain ⟨sys', hs, rfl⟩ := Option.map_eq_some_iff.1 hstep
      exact ⟨h.base.step hok hs, fun ho => ⟨(h.held ho).1, h.held_base hen hs ho⟩, h.completed⟩
    · cases hstep
  | maintain port m =>
    simp only [MaintSys.step] at hstep
    split at hstep
    · rename_i hfree
      rw [Bool.and_eq_true, Option.isNone_iff_eq_none] at hfree
      obtain rfl := Option.some.inj hstep
      refine h.maintain hfree.1 ?_ fun hne => ?_
      · rcases hok with hk | ⟨hk, -⟩
        · rw [hk]
          exact nofun
        · rw [hk]
          exact nofun
      · exact (hok.resolve_left hne).2
    · cases hstep
  | exec port order =>
    simp only [MaintSys.step] at hstep
    split at hstep
    · cases hstep
    · rename_i m ho
      obtain ⟨acc, hacc, rfl⟩ := Option.map_eq_some_iff.1 hstep
      exact h.writeclean ho hacc
    · rename_i m ho
      obtain ⟨acc, hacc, rfl⟩ := Option.map_eq_some_iff.1 hstep
      exact h.forward ho (hok m ho).1 hacc

theorem MaintInv.init (cacheSz : Fin N → ℕ) (buffers : Fin N → ℕ → ℕ → Byte) (mem₀ : Addr → Byte) :
    MaintInv ls mem₀ (MaintSys.init cacheSz buffers mem₀) where
  base := .init cacheSz buffers mem₀
  held ho := by cases ho
  completed c hc := by cases hc

/-- An operation that gives its own copy up keeps the flat memory, exactly if the memory has what was dirty. -/
theorem MaintInv.coh_maintain_iff (h : MaintInv ls mem₀ s) (hk : m.kind ≠ .cleanShared) :
    Coh ls (Function.update s.sys.caches port ((s.sys.caches port).doCacheMaintenance ls m).1) s.sys.mem (flat mem₀ s.sys.trace) ↔
      (s.sys.caches port).Written ls s.sys.mem m :=
  ⟨h.base.coh.written_of_doCacheMaintenance hk, fun hw => h.base.coh.doCacheMaintenance fun _ => hw⟩

end Step

/-- An operation about one line, which is sent at reset, meets the condition. -/
theorem MaintSys.MaintStep.first {cacheSz : Fin N → ℕ} {buffers : Fin N → ℕ → ℕ → Byte} {mem : Addr → Byte} {s : MaintSys N}
    {port : Fin N} {order : List (Fin N)} {m : Maintenance} (hone : ∀ a, m.Covers ls a → ls.getTag a = ls.getTag m.address)
    (hs : (MaintSys.init cacheSz buffers mem).step ls (.maintain port m) = some s) : s.MaintStep ls (.exec port order) := by
  intro m' ho
  obtain rfl := Option.some.inj hs
  simp only [MaintSys.setCache, Function.update_self] at ho
  obtain ⟨rfl, -⟩ := Prod.mk.inj (Option.some.inj ho)
  refine ⟨fun a _ i x hv => ?_, fun _ => hone⟩
  -- no cache has got a line
  have hold : (((MaintSys.init cacheSz buffers mem).sys.caches i).lines x).valid = true := by
    by_cases hi : i = port
    · subst hi
      simp only [MaintSys.setCache, Function.update_self] at hv
      exact ((Cache.doCacheMaintenance_localTo ls _ m).lines x hv).1
    · simp only [MaintSys.setCache, Function.update_of_ne hi] at hv
      exact hv
  cases hold

/-- A `CleanInvalid` of a line that no cache has. -/
def cleanAbsent : List (MaintAction 2) :=
  [.maintain 0 { kind := .cleanInvalid, address := 0x1010, dataLength := 16, genattr := { domain := .inner }, noBarrier := rfl },
    .exec 0 [1]]

/-- A store of a whole line, and a `CleanInvalid` of it. -/
def storeClean : List (MaintAction 2) :=
  [.base (.begin 0 { write := true, address := 0x1000, dataLength := 64, data := fun _ => 0xa5 }), .base (.exec 0 [1]),
    .maintain 0 { kind := .cleanInvalid, address := 0x1000, dataLength := 64, genattr := { secure := false, domain := .inner }, noBarrier := rfl },
    .exec 0 [1]]

end LibSystemCTLM.Ace
