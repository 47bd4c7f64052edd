import LibSystemCTLM.Ace.Coherent

/-!
# Cache maintenance

`do_cache_maintenance` (`cache-ace.h`): the cache sees to its own copy of the first line first, and then the operation goes to the
interconnect, which snoops the other caches and writes what they had to the memory. `CleanShared` writes the own copy out. So it should
be for `CleanInvalid`, but that copy is given up by an `Evict`, which has no data.

## The model

A maintenance operation is carried out by at most two blocking transactions, its own `WriteClean` and itself (`MaintPhase`). `Cleaned`
is what the second of them does to the other caches and to the memory, if it snoops.
-/

namespace LibSystemCTLM.Ace

open Foundation Foundation.Coherence Cache SnoopTransaction

variable {N : ℕ} (ls : LineSize)

/-- The operations of `is_cache_maintenance`. -/
inductive MaintenanceKind where
  | cleanShared | cleanInvalid | makeInvalid
  deriving DecidableEq, Repr

/-- `get_snoop`. -/
def MaintenanceKind.ar : MaintenanceKind → AR
  | .cleanShared => .cleanShared
  | .cleanInvalid => .cleanInvalid
  | .makeInvalid => .makeInvalid

/-- The payload of a maintenance operation. One that is a barrier is only forwarded. -/
structure Maintenance where
  kind : MaintenanceKind
  /-- `TLM_READ_COMMAND`, and no `TLM_IGNORE_COMMAND`. -/
  read : Bool := false
  address : Addr
  dataLength : ℕ
  genattr : Genattr
  noBarrier : genattr.barrier = false

namespace Maintenance

variable (m : Maintenance)

/-- The payload, as it is forwarded. -/
def transaction (port : ℕ) : Transaction where
  portId := port
  cmd := if m.read then .read m.kind.ar else .ignoreRead m.kind.ar
  address := m.address
  dataLength := m.dataLength
  data := fun _ => 0
  genattr := m.genattr

/-- The interconnect snoops the other caches. -/
def snoops : Bool := (m.transaction 0).isSnoopingTransaction

/-- The byte is in a line that the operation covers. -/
def Covers (a : Addr) : Prop :=
  ls.getTag a = ls.getTag m.address ∨ ∃ n < m.dataLength, ls.getTag a = ls.getTag (m.address + BitVec.ofNat 64 n)

end Maintenance

/-- What a maintenance operation waits for. -/
inductive MaintPhase where
  | writeclean | forward
  deriving DecidableEq, Repr

/-- `do_cache_maintenance`, up to its first blocking transaction. -/
def Cache.doCacheMaintenance (c : Cache) (m : Maintenance) : Cache × MaintPhase :=
  if c.inCache ls m.address m.genattr.secure then
    let l := c.getLine ls m.address
    match m.kind with
    | .cleanShared => (c, if l.valid && l.dirty then .writeclean else .forward)
    | .cleanInvalid | .makeInvalid => (if l.valid then c.evict ls m.address else c, .forward)
  else (c, .forward)

/-- The `WriteClean` of `do_cache_maintenance`. -/
def Maintenance.writecleanTransaction (m : Maintenance) (port : ℕ) (c : Cache) : Transaction :=
  let l := c.getLine ls m.address
  { portId := port, cmd := .write .writeClean, address := l.tag, dataLength := ls.size, data := l.data
    genattr := { secure := l.secure, domain := .inner } }

/-! ### The own copy -/

section Own

variable {ls} {c : Cache} {m : Maintenance}

/-- Only `CleanShared` of a dirty line has something to write. -/
theorem Cache.doCacheMaintenance_writeclean (h : (c.doCacheMaintenance ls m).2 = .writeclean) :
    m.kind = .cleanShared ∧ c.inCache ls m.address m.genattr.secure = true ∧ (c.doCacheMaintenance ls m).1 = c := by
  unfold Cache.doCacheMaintenance at h ⊢
  split at h
  · rename_i hin
    cases hk : m.kind <;> simp_all
  · cases h

/-- Otherwise the cache has no dirty copy of its own any more. -/
theorem Cache.doCacheMaintenance_forward (h : (c.doCacheMaintenance ls m).2 = .forward)
    (hin : (c.doCacheMaintenance ls m).1.inCache ls m.address m.genattr.secure = true) :
    ((c.doCacheMaintenance ls m).1.getLine ls m.address).dirty = false := by
  unfold Cache.doCacheMaintenance at h hin ⊢
  by_cases hc : c.inCache ls m.address m.genattr.secure = true
  · obtain ⟨hv, -⟩ := (inCache_eq_true ls c).1 hc
    rw [if_pos hc] at h hin ⊢
    cases hk : m.kind with
    | cleanShared =>
      simp only [hk, hv, Bool.true_and] at h ⊢
      by_contra hd
      rw [Bool.not_eq_false] at hd
      rw [if_pos hd] at h
      cases h
    | cleanInvalid | makeInvalid =>
      simp only [hk, hv, if_true] at hin
      rw [inCache_eq_true, evict, getLine_setLine_self] at hin
      cases hin.1
  · rw [if_neg hc] at hin
    exact absurd hin hc

/-- It leaves its cache as it is, or gives up the copy. -/
theorem Cache.doCacheMaintenance_cases (ls : LineSize) (c : Cache) (m : Maintenance) : (c.doCacheMaintenance ls m).1 = c ∨
    m.kind ≠ .cleanShared ∧ c.inCache ls m.address m.genattr.secure = true ∧ (c.doCacheMaintenance ls m).1 = c.evict ls m.address := by
  unfold Cache.doCacheMaintenance
  split
  · rename_i hin
    obtain ⟨hv, -⟩ := (inCache_eq_true ls c).1 hin
    cases hk : m.kind with
    | cleanShared => exact .inl rfl
    | cleanInvalid | makeInvalid => exact .inr ⟨nofun, hin, if_pos hv⟩
  · exact .inl rfl

theorem Cache.doCacheMaintenance_localTo (ls : LineSize) (c : Cache) (m : Maintenance) : LocalTo c (c.doCacheMaintenance ls m).1 := by
  rcases c.doCacheMaintenance_cases ls m with heq | ⟨-, -, heq⟩
  · rw [heq]
    exact .refl c
  · rw [heq]
    exact localTo_evict ls c _

/-- If the cache has the line dirty, then the memory has the same. -/
def Cache.Written (ls : LineSize) (c : Cache) (mem : Addr → Byte) (m : Maintenance) : Prop :=
  c.inCache ls m.address m.genattr.secure = true → (c.getLine ls m.address).dirty = true →
    ∀ a, ls.getTag a = ls.getTag m.address → mem a = (c.getLine ls m.address).data (ls.getLineOffset a)

variable {caches : Fin N → Cache} {mem v : Addr → Byte} {port : Fin N}

theorem Coh.getLine_data (h : Coh ls caches mem v) {i : Fin N} {b : Addr} {sec : Bool} (hin : (caches i).inCache ls b sec = true)
    {a : Addr} (ha : ls.getTag a = ls.getTag b) : ((caches i).getLine ls b).data (ls.getLineOffset a) = v a := by
  have hd := h.getLine_data_add hin (ls.getLineOffset_lt a)
  rwa [← ha, getTag_add_getLineOffset] at hd

/-- **What the cache does to its own copy loses nothing**, if an operation that gives it up finds it in the memory. -/
theorem Coh.doCacheMaintenance (h : Coh ls caches mem v) (hw : m.kind ≠ .cleanShared → (caches port).Written ls mem m) :
    Coh ls (Function.update caches port ((caches port).doCacheMaintenance ls m).1) mem v := by
  rcases (caches port).doCacheMaintenance_cases ls m with heq | ⟨hk, hin, heq⟩
  · rw [heq, Function.update_eq_self]
    exact h
  · rw [heq]
    by_cases hd : ((caches port).getLine ls m.address).dirty = true
    · refine h.setLine_clean (fun hv => Bool.noConfusion hv) fun a ha => ?_
      have ht := ((inCache_eq_true ls (caches port)).1 hin).2.1
      rw [hw hk hin hd a (ha.trans ht), h.getLine_data hin (ha.trans ht)]
    · exact h.quietTo (quietTo_evict ls _ _ (Bool.eq_false_iff.2 hd))

/-- There is one dirty copy of a line at most. -/
theorem Coh.eq_of_dirty (h : Coh ls caches mem v) {i j : Fin N} {x y : ℕ} (hv : ((caches i).lines x).valid = true)
    (hd : ((caches i).lines x).dirty = true) (hv' : ((caches j).lines y).valid = true) (hd' : ((caches j).lines y).dirty = true)
    (ht : ((caches j).lines y).tag = ((caches i).lines x).tag) : j = i ∧ y = x := by
  have hsec := h.oneState j i y x hv' hv ht
  obtain rfl := (SingleWriter.of_owned h.owned h.shape).oneDirty hv hd hv' hd' ht hsec
  have hy := (h.shape i y hv').1
  rw [ht, (h.shape i x hv).1] at hy
  exact ⟨rfl, hy.symm⟩

/-- **But if the memory does not have it, it is lost.** -/
theorem Coh.written_of_doCacheMaintenance (h : Coh ls caches mem v) (hk : m.kind ≠ .cleanShared)
    (h' : Coh ls (Function.update caches port ((caches port).doCacheMaintenance ls m).1) mem v) : (caches port).Written ls mem m := by
  intro hin hd a ha
  have hev : ((caches port).doCacheMaintenance ls m).1 = (caches port).evict ls m.address := by
    obtain ⟨hv, -⟩ := (inCache_eq_true ls (caches port)).1 hin
    rw [Cache.doCacheMaintenance, if_pos hin]
    cases hkind : m.kind with
    | cleanShared => exact absurd hkind hk
    | cleanInvalid | makeInvalid => exact if_pos hv
  obtain ⟨hv, ht, -⟩ := (inCache_eq_true ls (caches port)).1 hin
  rw [hev] at h'
  rw [h.getLine_data hin ha]
  -- the copy that is gone was the only dirty one
  refine h'.mem fun i y hvi hdi hti => ?_
  by_cases hi : i = port
  · subst hi
    rw [Function.update_self, evict, lines_setLine] at hvi hdi hti
    split at hvi
    · cases hvi
    · rename_i hy
      rw [if_neg hy] at hdi hti
      exact hy (h.eq_of_dirty hv hd hvi hdi (hti.trans (ha.trans ht.symm))).2
  · rw [Function.update_of_ne hi] at hvi hdi hti
    exact hi (h.eq_of_dirty hv hd hvi hdi (hti.trans (ha.trans ht.symm))).1

end Own

/-! ### The other copies -/

/-- `snoopOf`, of a maintenance operation. -/
def MaintenanceKind.ac : MaintenanceKind → AC
  | .cleanShared => .cleanShared
  | .cleanInvalid => .cleanInvalid
  | .makeInvalid => .makeInvalid

namespace Maintenance

variable {ls} {m : Maintenance} {port : ℕ}

theorem cmd_cases (m : Maintenance) (port : ℕ) :
    (m.transaction port).cmd = .read m.kind.ar ∨ (m.transaction port).cmd = .ignoreRead m.kind.ar := by
  rw [transaction]
  cases m.read
  · exact .inr rfl
  · exact .inl rfl

theorem snoopOf_cmd (m : Maintenance) (port : ℕ) : snoopOf (m.transaction port).cmd = m.kind.ac := by
  rcases m.cmd_cases port with hc | hc <;> rw [hc] <;> cases m.kind <;> rfl

theorem isEvict_isBarrier (m : Maintenance) (port : ℕ) : ((m.transaction port).isEvict || (m.transaction port).isBarrier) = false := by
  have hb : (m.transaction port).genattr.barrier = false := m.noBarrier
  rcases m.cmd_cases port with hc | hc <;> simp [Transaction.isEvict, Transaction.isBarrier, hc, hb]

theorem isReadOnce (m : Maintenance) (port : ℕ) : (m.transaction port).isReadOnce = false := by
  rcases m.cmd_cases port with hc | hc <;> cases hk : m.kind <;> simp [Transaction.isReadOnce, hc, hk, MaintenanceKind.ar]

theorem passMonitor (m : Maintenance) (mon : PosMonitor N) (port : Fin N) :
    passMonitor mon port (m.transaction port) = (mon, m.transaction port, true) := by
  have hcu : (m.transaction port).isCleanUnique = false := by
    rcases m.cmd_cases port with hc | hc <;> cases hk : m.kind <;> simp [Transaction.isCleanUnique, hc, hk, MaintenanceKind.ar]
  have hrs : ((m.transaction port).isReadShared || (m.transaction port).isReadClean) = false := by
    rcases m.cmd_cases port with hc | hc <;> cases hk : m.kind <;>
      simp [Transaction.isReadShared, Transaction.isReadClean, hc, hk, MaintenanceKind.ar]
  rw [Ace.passMonitor, handleExclusive, hcu, hrs]
  split <;> rfl

theorem allowPassDirty (hs : m.snoops = true) (port : ℕ) : (m.transaction port).allowPassDirty = false := by
  have hdom : m.genattr.domain ≠ .system := by
    intro hd
    have hn : m.snoops = false := by
      rw [snoops, Transaction.isSnoopingTransaction]
      have hg : (m.transaction 0).genattr.domain = .system := hd
      rcases m.cmd_cases 0 with hc | hc <;> cases hk : m.kind <;> simp [hc, hg, hk, MaintenanceKind.ar, Transaction.isSnoopingRead]
    rw [hn] at hs
    cases hs
  have hg : (m.transaction port).genattr.domain = m.genattr.domain := rfl
  rcases m.cmd_cases port with hc | hc <;> cases hk : m.kind <;>
    simp [Transaction.allowPassDirty, hc, hk, MaintenanceKind.ar, allowPassDirtySnoop, hg, hdom]

end Maintenance

variable {ls}

/-- **What an operation that snoops does** to the other caches and to the memory. -/
structure Cleaned (ls : LineSize) (waiting : Fin N → Bool) (caches : Fin N → Cache) (mem : Addr → Byte) (port : Fin N) (m : Maintenance)
    (acc : Accepted N) : Prop where
  /-- No other port has a write under way. -/
  idle : ∀ {i}, i ≠ port → waiting i = false
  self : acc.caches port = caches port
  others : ∀ {i}, i ≠ port →
    acc.caches i = (snoopAnswer ls m.kind.ac (ls.getTag m.address) m.genattr.secure (caches i)).1
  memKeep : (∀ i ≠ port, ∀ x, (caches i).copy ls (ls.getTag m.address) m.genattr.secure = some x → m.kind.ac.passes x = false) →
    acc.mem = mem
  memWrite : ∀ {v : ℕ → Byte},
    (∀ i ≠ port, (caches i).inCache ls (ls.getTag m.address) m.genattr.secure = true →
      ∀ o < ls.size, ((caches i).getLine ls (ls.getTag m.address)).data o = v o) →
    (∃ i ≠ port, ∃ x, (caches i).copy ls (ls.getTag m.address) m.genattr.secure = some x ∧ m.kind.ac.passes x = true) →
    ∃ d : ℕ → Byte, acc.mem = writeAt mem (ls.getTag m.address) ls.size d ∧ ∀ o < ls.size, d o = v o

section Transport

variable {waiting : Fin N → Bool} {order : List (Fin N)} {caches : Fin N → Cache} {mon : PosMonitor N} {mem : Addr → Byte}
  {port : Fin N} {m : Maintenance} {acc : Accepted N}

/-- An operation that does not snoop leaves all as it is. -/
theorem bTransport_quiet (hs : m.snoops = false) (h : bTransport ls waiting order caches mon mem port (m.transaction port) = some acc) :
    acc.caches = caches ∧ acc.exmon = mon ∧ acc.mem = mem := by
  have hs' : (m.transaction port).isSnoopingTransaction = false := hs
  simp only [bTransport, m.isEvict_isBarrier, hs', Bool.false_eq_true, if_false, Option.some.injEq] at h
  subst h
  refine ⟨rfl, rfl, ?_⟩
  rcases m.cmd_cases port with hc | hc <;> simp only [downstream, hc]

/-- One that snoops does what `Cleaned` says, on its first line. -/
theorem bTransport_cleaned (hs : m.snoops = true) (h : bTransport ls waiting order caches mon mem port (m.transaction port) = some acc) :
    Cleaned ls waiting caches mem port m acc := by
  have hs' : (m.transaction port).isSnoopingTransaction = true := hs
  simp only [bTransport, m.isEvict_isBarrier, hs', m.passMonitor, Bool.false_eq_true, Bool.true_eq_false, if_false, if_true] at h
  split at h
  swap
  · cases h
  rename_i hguard
  obtain ⟨hmem, hnd, hidle⟩ := hguard
  obtain rfl := Option.some.inj h
  have hro := m.isReadOnce port
  rw [processSnoop_eq ls hnd]
  simp only [mk', m.snoopOf_cmd]
  set st : SnoopTransaction := {
    addr := ls.getTag (m.transaction port).address, snoop := m.kind.ac, secure := (m.transaction port).genattr.secure,
    numPortsDone := 0, numMastersToSnoop := N - 1, dsRead := (m.transaction port).isReadOnce, dsData := fun _ => 0,
    dsResponse := .incomplete, snoopError := false, execDsGp := (m.transaction port).isReadOnce } with hst
  change Cleaned ls waiting caches mem port m
    ⟨_, _, (finalizeSnoopTr ls mem
      (collect ls (answers ls m.kind.ac (ls.getTag m.address) m.genattr.secure caches order) (m.transaction port, st)).1
      (collect ls (answers ls m.kind.ac (ls.getTag m.address) m.genattr.secure caches order) (m.transaction port, st)).2).1, _, _⟩
  generalize hgps : answers ls m.kind.ac (ls.getTag m.address) m.genattr.secure caches order = gps
  have hexec : (collect ls gps (m.transaction port, st)).2.execDsGp = true ↔
      gps.any (fun g => g.genattr.datatransfer && g.genattr.dirty) = true := by
    rw [collect_execDsGp gps hro, Maintenance.allowPassDirty hs]
    simp [hst, hro]
  have hreqc : (collect ls gps (m.transaction port, st)).1.request = (m.transaction port).request := collect_request gps
  have hcmd : (collect ls gps (m.transaction port, st)).1.cmd = (m.transaction port).cmd := (congrArg Transaction.cmd hreqc :)
  have hnw : ∀ aw, (collect ls gps (m.transaction port, st)).1.cmd ≠ .write aw := by
    intro aw hc
    have hw : (m.transaction port).cmd = .write aw := hcmd.symm.trans hc
    rcases m.cmd_cases port with h | h <;> rw [h] at hw <;> cases hw
  have hpasses : gps.any (fun g => g.genattr.datatransfer && g.genattr.dirty) = true ↔ ∃ i ≠ port, ∃ x,
      (caches i).copy ls (ls.getTag m.address) m.genattr.secure = some x ∧ m.kind.ac.passes x = true := hgps ▸ answers_passes hmem
  refine {
    idle := fun {i} hi => hidle i ((hmem i).2 hi)
    self := if_neg fun hp => (hmem port).1 hp rfl
    others := fun {i} hi => if_pos ((hmem i).2 hi)
    memKeep := fun hk => ?_
    memWrite := fun {v} hv hex => ?_ }
  · dsimp only
    rw [finalizeSnoopTr_mem hnw, if_neg]
    rw [hexec, hpasses]
    rintro ⟨i, hi, x, hx, hp⟩
    rw [hk i hi x hx] at hp
    cases hp
  · have hex' : (collect ls gps (m.transaction port, st)).2.execDsGp = true := hexec.2 (hpasses.2 hex)
    refine ⟨(collect ls gps (m.transaction port, st)).2.dsData, ?_, ?_⟩
    · dsimp only
      rw [finalizeSnoopTr_mem hnw, if_pos hex', (collect_line gps).2.1]
      rfl
    · exact collect_dsData gps hro
        (fun g hg ht _ => (hgps ▸ answers_data (ls.getTag_getTag m.address) hmem hv) g hg ht)
        (fun h => absurd h (by simp [hst, hro])) hex'

end Transport

/-! ### What the caches and the memory make up afterwards -/

section Cleaned

variable {waiting : Fin N → Bool} {caches : Fin N → Cache} {mem v : Addr → Byte} {port : Fin N} {m : Maintenance} {acc : Accepted N}

/-- The lines afterwards are the lines before, or the copies that were snooped. -/
theorem Cleaned.lines (hc : Cleaned ls waiting caches mem port m acc) (i : Fin N) (x : ℕ) :
    (acc.caches i).lines x = (caches i).lines x ∨
      i ≠ port ∧ (caches i).inCache ls m.address m.genattr.secure = true ∧ x = (caches i).lineIndex ls m.address ∧
        (acc.caches i).lines x = m.kind.ac.line ((caches i).lines x) := by
  by_cases hi : i = port
  · subst hi
    exact .inl (by rw [hc.self])
  · rw [hc.others hi, lines_snoopAnswer, inCache_getTag, lineIndex_getTag]
    split
    · rename_i h
      exact .inr ⟨hi, h.1, h.2, rfl⟩
    · exact .inl rfl

/-- No line gets another tag, and none gets valid or dirty. -/
theorem Cleaned.keeps (hc : Cleaned ls waiting caches mem port m acc) (i : Fin N) (x : ℕ) :
    ((acc.caches i).lines x).tag = ((caches i).lines x).tag ∧ ((acc.caches i).lines x).secure = ((caches i).lines x).secure ∧
      ((acc.caches i).lines x).data = ((caches i).lines x).data ∧
        (((acc.caches i).lines x).valid = true → ((caches i).lines x).valid = true) := by
  rcases hc.lines i x with heq | ⟨-, -, -, heq⟩
  · rw [heq]
    exact ⟨rfl, rfl, rfl, id⟩
  · rw [heq]
    exact ⟨AC.line_tag .., AC.line_secure .., AC.line_data .., AC.line_valid _ _⟩

/-- Some other cache has a dirty copy of the line, and passes it. -/
def Passed (ls : LineSize) (caches : Fin N → Cache) (port : Fin N) (m : Maintenance) : Prop :=
  ∃ i ≠ port, ∃ x, (caches i).copy ls (ls.getTag m.address) m.genattr.secure = some x ∧ m.kind.ac.passes x = true

/-- **The memory afterwards** has the line, if it was passed. -/
theorem Cleaned.mem_apply (hc : Cleaned ls waiting caches mem port m acc) (h : Coh ls caches mem v) (a : Addr) :
    (Passed ls caches port m ∧ ls.getTag a = ls.getTag m.address → acc.mem a = v a) ∧
      (¬ (Passed ls caches port m ∧ ls.getTag a = ls.getTag m.address) → acc.mem a = mem a) := by
  by_cases hp : Passed ls caches port m
  · have hdata : ∀ i ≠ port, (caches i).inCache ls (ls.getTag m.address) m.genattr.secure = true → ∀ o < ls.size,
        ((caches i).getLine ls (ls.getTag m.address)).data o = v (ls.getTag m.address + BitVec.ofNat 64 o) := by
      intro i _ hin o ho
      have htag := getTag_add (ls.getTag_getTag m.address) ho
      rw [← getLineOffset_add (ls.getTag_getTag m.address) ho]
      rw [h.getLine_data hin (htag.trans (ls.getTag_getTag m.address).symm), getLineOffset_add (ls.getTag_getTag m.address) ho]
    obtain ⟨d, hmem, hd⟩ := hc.memWrite hdata hp
    rw [hmem, writeAt_size (ls.getTag_getTag m.address)]
    constructor
    · rintro ⟨-, ha⟩
      rw [if_pos ha, hd _ (ls.getLineOffset_lt a), ← ha, getTag_add_getLineOffset]
    · intro hn
      rw [if_neg fun ha => hn ⟨hp, ha⟩]
  · have hmem : acc.mem = mem := hc.memKeep fun i hi x hx => Bool.eq_false_iff.2 fun hpass => hp ⟨i, hi, x, hx, hpass⟩
    rw [hmem]
    exact ⟨fun hh => absurd hh.1 hp, fun _ => rfl⟩

/-- A dirty copy that is snooped is passed, by the operations that clean. -/
theorem passed_of_dirty {i : Fin N} (hk : m.kind ≠ .makeInvalid) (hi : i ≠ port)
    (hin : (caches i).inCache ls m.address m.genattr.secure = true) (hd : ((caches i).getLine ls m.address).dirty = true) :
    Passed ls caches port m := by
  refine ⟨i, hi, _, (caches i).copy_of_inCache ls (by rwa [inCache_getTag]), ?_⟩
  rw [getLine_getTag, hd]
  cases hkind : m.kind with
  | makeInvalid => exact absurd hkind hk
  | cleanShared | cleanInvalid => rfl

theorem Cleaned.owned (hc : Cleaned ls waiting caches mem port m acc) {a : Addr} {sec : Bool}
    (h : Owned (copies ls caches a sec)) : Owned (copies ls acc.caches a sec) := by
  have hcopy : ∀ i ≠ port, copies ls acc.caches a sec i =
      if ls.getTag a = ls.getTag m.address ∧ sec = m.genattr.secure then (copies ls caches a sec i).bind m.kind.ac.after
      else copies ls caches a sec i := by
    intro i hi
    rw [copies, hc.others hi, copy_snoopAnswer, LineSize.getTag_getTag]
    rfl
  have hself : copies ls acc.caches a sec port = copies ls caches a sec port := by rw [copies, hc.self, copies]
  by_cases hline : ls.getTag a = ls.getTag m.address ∧ sec = m.genattr.secure
  · refine h.cleanStep hself fun {i d} hi hd => ?_
    rw [hcopy i hi, if_pos hline, Option.bind_eq_some_iff] at hd
    obtain ⟨e, he, hd⟩ := hd
    refine ⟨e, he, ?_⟩
    cases hkind : m.kind with
    | cleanShared =>
      rw [hkind] at hd
      obtain rfl : (⟨true, false⟩ : Copy) = d := Option.some.inj hd
      exact ⟨rfl, fun h => by cases h⟩
    | cleanInvalid | makeInvalid =>
      rw [hkind] at hd
      cases hd
  · have heq : copies ls acc.caches a sec = copies ls caches a sec := by
      funext i
      by_cases hi : i = port
      · subst hi
        exact hself
      · rw [hcopy i hi, if_neg hline]
    rwa [heq]

/-- **An operation that cleans leaves the flat memory alone**: what it takes from the caches is written to the memory. -/
theorem Coh.cleaned (h : Coh ls caches mem v) (hc : Cleaned ls waiting caches mem port m acc) (hk : m.kind ≠ .makeInvalid) :
    Coh ls acc.caches acc.mem v := by
  refine ⟨fun a sec => hc.owned (h.owned a sec), fun i => (h.shape i).of_sub ?_ fun x hv => ?_, ?_, ?_, ?_⟩
  · by_cases hi : i = port
    · subst hi
      rw [hc.self]
    · rw [hc.others hi, snoopAnswer_cacheSz]
  · exact ⟨(hc.keeps i x).2.2.2 hv, (hc.keeps i x).1⟩
  · intro i j x y hi hj ht
    obtain ⟨ti, si, -, vi⟩ := hc.keeps i x
    obtain ⟨tj, sj, -, vj⟩ := hc.keeps j y
    rw [si, sj]
    exact h.oneState _ _ _ _ (vi hi) (vj hj) (ti ▸ tj ▸ ht)
  · intro i x hv o ho
    obtain ⟨ti, -, di, vi⟩ := hc.keeps i x
    rw [ti, di]
    exact h.data (vi hv) o ho
  · intro a hn
    by_cases hpass : Passed ls caches port m ∧ ls.getTag a = ls.getTag m.address
    · exact (hc.mem_apply h a).1 hpass
    · rw [(hc.mem_apply h a).2 hpass]
      refine h.mem fun i y hv hd ht => ?_
      rcases hc.lines i y with heq | ⟨hi, hin, hy, -⟩
      · exact hn i y (by rw [heq]; exact hv) (by rw [heq]; exact hd) (by rw [heq]; exact ht)
      · -- a dirty copy that is snooped is passed
        subst hy
        refine hpass ⟨passed_of_dirty hk hi hin hd, ?_⟩
        rw [← ht]
        exact ((inCache_eq_true ls (caches i)).1 hin).2.1

/-- What is dirty of the lines that the operation covers is what it sees to: the copies of the first line, in the caches that are snooped. Or
the memory has the same. -/
def Maintenance.Reaches (ls : LineSize) (m : Maintenance) (caches : Fin N → Cache) (mem : Addr → Byte) (port : Fin N) : Prop :=
  ∀ a, m.Covers ls a → ∀ i x, ((caches i).lines x).valid = true → ((caches i).lines x).dirty = true →
    ((caches i).lines x).tag = ls.getTag a →
    mem a = ((caches i).lines x).data (ls.getLineOffset a) ∨
      (ls.getTag a = ls.getTag m.address ∧ ((caches i).lines x).secure = m.genattr.secure ∧ (i = port ∨ m.snoops = true))

/-- A dirty line in a cache has the bytes of `v`. -/
theorem Coh.lines_data (h : Coh ls caches mem v) {i : Fin N} {x : ℕ} (hv : ((caches i).lines x).valid = true) {a : Addr}
    (ht : ((caches i).lines x).tag = ls.getTag a) : ((caches i).lines x).data (ls.getLineOffset a) = v a := by
  rw [h.data hv _ (ls.getLineOffset_lt a), ht, getTag_add_getLineOffset]

/-- The memory behind an operation that is forwarded. -/
theorem mem_forwarded {order : List (Fin N)} {mon : PosMonitor N} (h : Coh ls caches mem v)
    (hacc : bTransport ls waiting order caches mon mem port (m.transaction port) = some acc) (a : Addr) :
    (m.snoops = true ∧ Passed ls caches port m ∧ ls.getTag a = ls.getTag m.address → acc.mem a = v a) ∧
      (¬ (m.snoops = true ∧ Passed ls caches port m ∧ ls.getTag a = ls.getTag m.address) → acc.mem a = mem a) := by
  cases hs : m.snoops with
  | false =>
    rw [(bTransport_quiet hs hacc).2.2]
    exact ⟨fun hh => Bool.noConfusion hh.1, fun _ => rfl⟩
  | true =>
    obtain ⟨hpass, hkeep⟩ := (bTransport_cleaned hs hacc).mem_apply h a
    exact ⟨fun hh => hpass hh.2, fun hn => hkeep fun hh => hn ⟨rfl, hh⟩⟩

/-- **The memory has the latest bytes of all that is covered, exactly if the operation reaches what is dirty.** -/
theorem memory_iff_reaches {order : List (Fin N)} {mon : PosMonitor N} (h : Coh ls caches mem v) (hk : m.kind ≠ .makeInvalid)
    (hclean : (caches port).inCache ls m.address m.genattr.secure = true → ((caches port).getLine ls m.address).dirty = false)
    (hacc : bTransport ls waiting order caches mon mem port (m.transaction port) = some acc) :
    (∀ a, m.Covers ls a → acc.mem a = v a) ↔ m.Reaches ls caches mem port := by
  constructor
  · intro hmem a ha i x hv hd ht
    rw [h.lines_data hv ht]
    by_cases hpass : m.snoops = true ∧ Passed ls caches port m ∧ ls.getTag a = ls.getTag m.address
    · -- the copy that is passed is this one
      obtain ⟨hs, ⟨j, hj, y, hy, hp⟩, hline⟩ := hpass
      obtain ⟨hin, rfl⟩ := ((caches j).copy_eq_some ls).1 hy
      rw [inCache_getTag] at hin
      rw [getLine_getTag] at hp
      obtain ⟨hvj, htj, hsj⟩ := (inCache_eq_true ls (caches j)).1 hin
      have hdj : ((caches j).getLine ls m.address).dirty = true := by
        simp only [AC.passes, Bool.and_eq_true] at hp
        exact hp.2
      obtain ⟨rfl, rfl⟩ := h.eq_of_dirty hvj hdj hv hd (ht.trans (hline.trans htj.symm))
      exact .inr ⟨hline, hsj, .inr hs⟩
    · rw [← (mem_forwarded h hacc a).2 hpass]
      exact .inl (hmem a ha)
  · intro hreach a ha
    by_cases hpass : m.snoops = true ∧ Passed ls caches port m ∧ ls.getTag a = ls.getTag m.address
    · exact (mem_forwarded h hacc a).1 hpass
    · rw [(mem_forwarded h hacc a).2 hpass]
      by_contra hne
      refine hne (h.mem fun i x hv hd ht => ?_)
      rcases hreach a ha i x hv hd ht with hmem | ⟨hline, hsec, hwho⟩
      · exact hne (hmem.trans (h.lines_data hv ht))
      · obtain ⟨hin, hl⟩ := (h.shape i).inCache hv (ht.trans hline) hsec
        by_cases hi : i = port
        · subst hi
          rw [← hl, hclean hin] at hd
          cases hd
        · rcases hwho with heq | hs
          · exact hi heq
          · exact hpass ⟨hs, passed_of_dirty hk hi hin (by rw [hl]; exact hd), hline⟩

end Cleaned

end LibSystemCTLM.Ace
