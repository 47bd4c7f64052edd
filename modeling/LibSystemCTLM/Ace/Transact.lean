import LibSystemCTLM.Ace.Snoop
import LibSystemCTLM.Ace.Master

/-!
# What the transactions of a cache do

The transactions a write-back cache waits for are of two kinds. A `WriteBack` or `WriteClean`
writes its line to the memory and touches nothing else (`bTransport_write`). A line request, that
is a fetch or a `CleanUnique`, either is refused by the PoS monitor, which only happens to an
exclusive `CleanUnique`, or is carried out (`bTransport_lineRequest`); `Snooped` says everything
the caches need to know of a request that is carried out, in terms of how the other caches held
the line before it.
-/

namespace LibSystemCTLM.Ace

open Foundation Foundation.Coherence SnoopTransaction

variable {N : ℕ} {ls : LineSize}

/-! ### Writes -/

/-- A `WriteBack` or `WriteClean` of a whole line is written to the memory. -/
theorem bTransport_write {waiting : Fin N → Bool} {order : List (Fin N)} {caches : Fin N → Cache}
    {exmon : PosMonitor N} {mem : Addr → Byte} {port : Fin N} {tr : Transaction} {acc : Accepted N}
    (hcmd : tr.cmd = .write .writeBack ∨ tr.cmd = .write .writeClean) (hbe : tr.byteEnable = [])
    (h : bTransport ls waiting order caches exmon mem port tr = some acc) :
    acc = ⟨caches, exmon, writeAt mem tr.address tr.dataLength tr.data, { tr with response := .ok }, none⟩ := by
  have hev : (tr.isEvict || tr.isBarrier) = false := by
    rcases hcmd with hc | hc <;> simp [Transaction.isEvict, Transaction.isBarrier, hc]
  have hsn : tr.isSnoopingTransaction = false := by
    rcases hcmd with hc | hc <;> simp [Transaction.isSnoopingTransaction, hc]
  have hd : downstream mem tr = (writeAt mem tr.address tr.dataLength tr.data, { tr with response := .ok }) := by
    rcases hcmd with hc | hc <;> simp [downstream, hc, hbe, writeAt]
  simp only [bTransport, hev, hsn, hd, Bool.false_eq_true, if_false, Option.some.injEq] at h
  exact h.symm

/-! ### Line requests -/

/-- A fetch or a `CleanUnique`, as a cache sends it. -/
structure LineRequest (ls : LineSize) (tr : Transaction) : Prop where
  cmd : tr.cmd ∈ [.read .readShared, .read .readNotSharedDirty, .read .readUnique, .ignoreRead .makeUnique,
    Command.ignoreRead .cleanUnique]
  domain : tr.genattr.domain = .inner
  barrier : tr.genattr.barrier = false
  shared : tr.genattr.shared = false
  dirty : tr.genattr.dirty = false
  response : tr.response = .incomplete
  dataLength : tr.dataLength = ls.size
  aligned : ls.getTag tr.address = tr.address

namespace LineRequest

variable {tr : Transaction}

theorem cases (h : LineRequest ls tr) : tr.cmd = .read .readShared ∨ tr.cmd = .read .readNotSharedDirty ∨
    tr.cmd = .read .readUnique ∨ tr.cmd = .ignoreRead .makeUnique ∨ tr.cmd = .ignoreRead .cleanUnique := by
  simpa using h.cmd

theorem isReadOnce (h : LineRequest ls tr) : tr.isReadOnce = false := by
  rcases h.cases with hc | hc | hc | hc | hc <;> simp [Transaction.isReadOnce, hc]

theorem isEvict_isBarrier (h : LineRequest ls tr) : (tr.isEvict || tr.isBarrier) = false := by
  rcases h.cases with hc | hc | hc | hc | hc <;> simp [Transaction.isEvict, Transaction.isBarrier, hc, h.barrier]

theorem isSnoopingTransaction (h : LineRequest ls tr) : tr.isSnoopingTransaction = true := by
  rcases h.cases with hc | hc | hc | hc | hc <;>
    simp [Transaction.isSnoopingTransaction, hc, Transaction.isSnoopingRead, Transaction.isRead, h.domain,
      Domain.isShareable, Transaction.hasSingleRdDataTransfer, hasSingleRdDataTransferSnoop]

theorem setExokay (h : LineRequest ls tr) : LineRequest ls tr.setExokay :=
  ⟨h.cmd, h.domain, h.barrier, h.shared, h.dirty, h.response, h.dataLength, h.aligned⟩

/-- The snoop of a line request is never a `ReadOnce`. -/
theorem snoopOf_ne (h : LineRequest ls tr) : snoopOf tr.cmd ≠ .readOnce := by
  rcases h.cases with hc | hc | hc | hc | hc <;> simp [snoopOf, hc]

end LineRequest

/-- The PoS monitor lets a transaction pass unchanged, but for the exclusive response. -/
theorem passMonitor_proceeds {exmon : PosMonitor N} {port : Fin N} {tr : Transaction}
    (h : (passMonitor exmon port tr).2.2 ≠ false) :
    (passMonitor exmon port tr).2.1 = tr ∨ (passMonitor exmon port tr).2.1 = tr.setExokay := by
  revert h
  simp only [passMonitor, handleExclusive]
  split
  · split
    · split
      · exact fun _ => .inr rfl
      · exact fun h => absurd rfl h
    · split
      · exact fun _ => .inr rfl
      · exact fun _ => .inl rfl
  · exact fun _ => .inl rfl

/-- Only an exclusive `CleanUnique` of a port that is not set is refused. -/
theorem passMonitor_refuses {exmon : PosMonitor N} {port : Fin N} {tr : Transaction}
    (h : (passMonitor exmon port tr).2.2 = false) :
    tr.genattr.exclusive = true ∧ tr.isCleanUnique = true ∧ exmon.isSet port = false ∧
      passMonitor exmon port tr = (exmon.setUnlessLocked port, { tr with response := .ok }, false) := by
  revert h
  simp only [passMonitor, handleExclusive]
  split
  · rename_i hex
    split
    · rename_i hcu
      split
      · exact fun h => absurd h (by simp)
      · rename_i hset
        exact fun _ => ⟨hex, hcu, Bool.eq_false_iff.2 hset, rfl⟩
    · split <;> exact fun h => absurd h (by simp)
  · exact fun h => absurd h (by simp)

/-- The copies of a line that a snoop turns into a dirty answer with data. -/
def AC.passes (ac : AC) (x : Copy) : Bool := ac.transfers x && ac.reportsDirty && x.dirty

/-- **A line request that is carried out**: what it does to the other caches, to the memory and to
the transaction itself. `caches` and `mem` are those before it, `tr` the transaction as it was sent. -/
structure Snooped (ls : LineSize) (waiting : Fin N → Bool) (caches : Fin N → Cache) (mon : PosMonitor N)
    (mem : Addr → Byte) (port : Fin N) (tr : Transaction) (acc : Accepted N) : Prop where
  /-- No other port has a write under way. -/
  idle : ∀ {i}, i ≠ port → waiting i = false
  self : acc.caches port = caches port
  others : ∀ {i}, i ≠ port →
    acc.caches i = (snoopAnswer ls (snoopOf tr.cmd) tr.address tr.genattr.secure (caches i)).1
  snooped : acc.snooped = some (snoopOf tr.cmd)
  exmon : acc.exmon = (passMonitor mon port tr).1
  response : acc.tr.response = .ok
  address : acc.tr.address = tr.address
  secure : acc.tr.genattr.secure = tr.genattr.secure
  exclusiveHandled : acc.tr.genattr.exclusiveHandled = (passMonitor mon port tr).2.1.genattr.exclusiveHandled
  /-- The transaction is shared when some other port reports a copy. -/
  shared : acc.tr.genattr.shared = true ↔
    (snoopOf tr.cmd).reportsShared = true ∧ ∃ i ≠ port, ∃ x, (caches i).copy ls tr.address tr.genattr.secure = some x
  /-- The transaction is dirty when some other port passes its dirty copy. -/
  dirty : acc.tr.genattr.dirty = true ↔ tr.allowPassDirty = true ∧
    ∃ i ≠ port, ∃ x, (caches i).copy ls tr.address tr.genattr.secure = some x ∧ (snoopOf tr.cmd).passes x = true
  /-- A read has the data of the other copies, if they agree. -/
  dataHit : (snoopOf tr.cmd).isReadSnoop = true → ∀ {v : ℕ → Byte},
    (∀ i ≠ port, (caches i).inCache ls tr.address tr.genattr.secure = true →
      ∀ o < ls.size, ((caches i).getLine ls tr.address).data o = v o) →
    (∃ i ≠ port, (caches i).inCache ls tr.address tr.genattr.secure = true) → ∀ o < ls.size, acc.tr.data o = v o
  /-- A read has the data of the memory, if there is no other copy. -/
  dataMiss : (snoopOf tr.cmd).isReadSnoop = true →
    (∀ i ≠ port, (caches i).copy ls tr.address tr.genattr.secure = none) →
    ∀ o < ls.size, acc.tr.data o = mem (tr.address + BitVec.ofNat 64 o)
  /-- The data of a transaction that is no read stay what they were. -/
  dataKeep : (snoopOf tr.cmd).isReadSnoop = false → acc.tr.data = tr.data
  /-- The memory is written only if some port passes dirty data that the transaction may not have. -/
  memKeep : tr.allowPassDirty = true ∨
      (∀ i ≠ port, ∀ x, (caches i).copy ls tr.address tr.genattr.secure = some x → (snoopOf tr.cmd).passes x = false) →
    acc.mem = mem
  /-- What is written then is the line the dirty copies agree on. -/
  memWrite : tr.allowPassDirty = false → ∀ {v : ℕ → Byte},
    (∀ i ≠ port, (caches i).inCache ls tr.address tr.genattr.secure = true →
      ∀ o < ls.size, ((caches i).getLine ls tr.address).data o = v o) →
    (∃ i ≠ port, ∃ x, (caches i).copy ls tr.address tr.genattr.secure = some x ∧ (snoopOf tr.cmd).passes x = true) →
    ∃ d : ℕ → Byte, acc.mem = writeAt mem tr.address ls.size d ∧ ∀ o < ls.size, d o = v o

section Finalize

variable {mem : Addr → Byte} {tr : Transaction} {st : SnoopTransaction}

theorem downstream_request : (downstream mem tr).2.request = tr.request := by
  unfold downstream
  split <;> rfl

theorem finalizeSnoopTr_genattr : (finalizeSnoopTr ls mem tr st).2.genattr = tr.genattr := by
  simp only [finalizeSnoopTr]
  split
  · rfl
  · unfold downstream
    split <;> rfl

theorem finalizeSnoopTr_address : (finalizeSnoopTr ls mem tr st).2.address = tr.address := by
  simp only [finalizeSnoopTr]
  split
  · rfl
  · unfold downstream
    split <;> rfl

theorem finalizeSnoopTr_response (h : tr.response ≠ .genericError) : (finalizeSnoopTr ls mem tr st).2.response = .ok := by
  simp only [finalizeSnoopTr]
  split
  · rename_i hd
    have hne : tr.response ≠ .incomplete := by simpa [Transaction.done] using hd
    cases hr : tr.response <;> simp_all
  · unfold downstream
    split <;> rfl

/-- A read transaction changes the memory only through its dirty data. -/
theorem finalizeSnoopTr_mem (h : ∀ aw, tr.cmd ≠ .write aw) :
    (finalizeSnoopTr ls mem tr st).1 = if st.execDsGp then writeAt mem st.addr ls.size st.dsData else mem := by
  simp only [finalizeSnoopTr]
  split
  · rfl
  · unfold downstream
    split
    · rfl
    · rename_i aw hc
      exact absurd hc (h aw)
    · rfl
    · rfl

end Finalize

section Answers

variable {caches : Fin N → Cache} {port : Fin N} {order : List (Fin N)} {ac : AC} {addr : Addr} {secure : Bool}

/-- The answers of the ports in `order`. -/
def answers (ls : LineSize) (ac : AC) (addr : Addr) (secure : Bool) (caches : Fin N → Cache) (order : List (Fin N)) :
    List SnoopGp := order.map fun i => (snoopAnswer ls ac addr secure (caches i)).2

theorem any_answers {p : SnoopGp → Bool} (hmem : ∀ i, i ∈ order ↔ i ≠ port) :
    (answers ls ac addr secure caches order).any p = true ↔
      ∃ i ≠ port, p (snoopAnswer ls ac addr secure (caches i)).2 = true := by
  simp [answers, List.any_map, hmem]

theorem answers_errorBit : ∀ g ∈ answers ls ac addr secure caches order, g.genattr.errorBit = false := by
  intro g hg
  obtain ⟨i, -, rfl⟩ := List.mem_map.1 hg
  exact (snoopAnswer_genattr ls ac addr secure (caches i)).2.2.2

theorem answers_shared (hmem : ∀ i, i ∈ order ↔ i ≠ port) :
    (answers ls ac addr secure caches order).any (fun g => g.genattr.shared) = true ↔
      ac.reportsShared = true ∧ ∃ i ≠ port, ∃ x, (caches i).copy ls addr secure = some x := by
  rw [any_answers hmem]
  constructor
  · rintro ⟨i, hi, h⟩
    rw [(snoopAnswer_genattr ls ac addr secure (caches i)).1] at h
    cases hc : (caches i).copy ls addr secure with
    | none => simp [hc] at h
    | some x => exact ⟨by simpa [hc] using h, i, hi, x, hc⟩
  · rintro ⟨hac, i, hi, x, hc⟩
    refine ⟨i, hi, ?_⟩
    rw [(snoopAnswer_genattr ls ac addr secure (caches i)).1, hc]
    exact hac

/-- An answer is a dirty one with data exactly for the copies the snoop passes. -/
theorem answer_passes (c : Cache) :
    ((snoopAnswer ls ac addr secure c).2.genattr.datatransfer && (snoopAnswer ls ac addr secure c).2.genattr.dirty) = true ↔
      ∃ x, c.copy ls addr secure = some x ∧ ac.passes x = true := by
  obtain ⟨-, hd, ht, -⟩ := snoopAnswer_genattr ls ac addr secure c
  rw [hd, ht]
  cases hc : c.copy ls addr secure with
  | none => simp
  | some x => simp [AC.passes, and_assoc]

theorem answers_passes (hmem : ∀ i, i ∈ order ↔ i ≠ port) :
    (answers ls ac addr secure caches order).any (fun g => g.genattr.datatransfer && g.genattr.dirty) = true ↔
      ∃ i ≠ port, ∃ x, (caches i).copy ls addr secure = some x ∧ ac.passes x = true := by
  rw [any_answers hmem]
  simp only [answer_passes]

theorem answers_datatransfer (hmem : ∀ i, i ∈ order ↔ i ≠ port) (hr : ac.isReadSnoop = true) :
    (answers ls ac addr secure caches order).any (fun g => g.genattr.datatransfer) = true ↔
      ∃ i ≠ port, (caches i).inCache ls addr secure = true := by
  rw [any_answers hmem]
  refine exists_congr fun i => and_congr_right fun _ => ?_
  rw [(snoopAnswer_genattr ls ac addr secure (caches i)).2.2.1]
  by_cases hin : (caches i).inCache ls addr secure = true
  · rw [(caches i).copy_of_inCache ls hin]
    revert hr
    cases ac <;> simp [AC.isReadSnoop, AC.transfers, hin]
  · rw [((caches i).copy_eq_none ls).2 (Bool.eq_false_iff.2 hin)]
    simp [hin]

/-- The data of the answers is that of the lines. -/
theorem answers_data {v : ℕ → Byte} (haddr : ls.getTag addr = addr) (hmem : ∀ i, i ∈ order ↔ i ≠ port)
    (hv : ∀ i ≠ port, (caches i).inCache ls addr secure = true → ∀ o < ls.size, ((caches i).getLine ls addr).data o = v o) :
    ∀ g ∈ answers ls ac addr secure caches order, g.genattr.datatransfer = true → ∀ o < ls.size, g.data o = v o := by
  intro g hg ht o ho
  obtain ⟨i, hi, rfl⟩ := List.mem_map.1 hg
  obtain ⟨hin, hd⟩ := snoopAnswer_data ls ac haddr secure (caches i) ht
  rw [hd o ho]
  exact hv i ((hmem i).1 hi) hin o ho

end Answers

/-- **A line request that the PoS monitor lets pass is carried out as `Snooped` says.** -/
theorem bTransport_lineRequest {waiting : Fin N → Bool} {order : List (Fin N)} {caches : Fin N → Cache}
    {mon : PosMonitor N} {mem : Addr → Byte} {port : Fin N} {tr : Transaction} {acc : Accepted N}
    (hreq : LineRequest ls tr) (hproc : (passMonitor mon port tr).2.2 ≠ false)
    (h : bTransport ls waiting order caches mon mem port tr = some acc) :
    Snooped ls waiting caches mon mem port tr acc := by
  simp only [bTransport, hreq.isEvict_isBarrier, hreq.isSnoopingTransaction, if_neg hproc, Bool.false_eq_true, if_false,
    if_true] at h
  split at h
  swap
  · cases h
  rename_i hguard
  obtain ⟨hmem, hnd, hidle⟩ := hguard
  obtain rfl := Option.some.inj h
  -- the transaction that passed the monitor
  generalize htr₁ : (passMonitor mon port tr).2.1 = tr₁
  have hpass : tr₁ = tr ∨ tr₁ = tr.setExokay := htr₁ ▸ passMonitor_proceeds hproc
  have hreq₁ : LineRequest ls tr₁ := by
    rcases hpass with rfl | rfl
    · exact hreq
    · exact hreq.setExokay
  have hcmd : tr₁.cmd = tr.cmd := by rcases hpass with rfl | rfl <;> rfl
  have haddr : tr₁.address = tr.address := by rcases hpass with rfl | rfl <;> rfl
  have hsec : tr₁.genattr.secure = tr.genattr.secure := by rcases hpass with rfl | rfl <;> rfl
  have hdata : tr₁.data = tr.data := by rcases hpass with rfl | rfl <;> rfl
  have hallow : tr₁.allowPassDirty = tr.allowPassDirty := by rcases hpass with rfl | rfl <;> rfl
  rw [processSnoop_eq ls hnd, hreq.aligned]
  simp only [mk', hcmd, hsec]
  set st : SnoopTransaction := {
    addr := tr.address, snoop := snoopOf tr.cmd, secure := tr.genattr.secure, numPortsDone := 0,
    numMastersToSnoop := N - 1, dsRead := tr₁.isReadOnce, dsData := fun _ => 0, dsResponse := .incomplete,
    snoopError := false, execDsGp := tr₁.isReadOnce } with hst
  change Snooped ls waiting caches mon mem port tr
    ⟨_, _, (finalizeSnoopTr ls mem
      (collect ls (answers ls (snoopOf tr.cmd) tr.address tr.genattr.secure caches order) (tr₁, st)).1
      (collect ls (answers ls (snoopOf tr.cmd) tr.address tr.genattr.secure caches order) (tr₁, st)).2).1,
      (finalizeSnoopTr ls mem
      (collect ls (answers ls (snoopOf tr.cmd) tr.address tr.genattr.secure caches order) (tr₁, st)).1
      (collect ls (answers ls (snoopOf tr.cmd) tr.address tr.genattr.secure caches order) (tr₁, st)).2).2, _⟩
  generalize hgps : answers ls (snoopOf tr.cmd) tr.address tr.genattr.secure caches order = gps
  have herr : ∀ g ∈ gps, g.genattr.errorBit = false := hgps ▸ answers_errorBit
  have hresp : (collect ls gps (tr₁, st)).1.response ≠ .genericError :=
    collect_response gps herr (by rw [hreq₁.response]; exact Response.noConfusion)
  have hreqc : (collect ls gps (tr₁, st)).1.request = tr₁.request := collect_request gps
  have hcmdc : (collect ls gps (tr₁, st)).1.cmd = tr.cmd := (congrArg Transaction.cmd hreqc).trans hcmd
  have hexec : (collect ls gps (tr₁, st)).2.execDsGp = true ↔ tr.allowPassDirty = false ∧
      gps.any (fun g => g.genattr.datatransfer && g.genattr.dirty) = true := by
    rw [collect_execDsGp gps hreq₁.isReadOnce, hallow]
    cases tr.allowPassDirty <;> simp [hst, hreq₁.isReadOnce]
  have hnw : ∀ aw, (collect ls gps (tr₁, st)).1.cmd ≠ .write aw := by
    intro aw hc
    rw [hcmdc] at hc
    rcases hreq.cases with h | h | h | h | h <;> rw [h] at hc <;> cases hc
  have hpasses : gps.any (fun g => g.genattr.datatransfer && g.genattr.dirty) = true ↔ ∃ i ≠ port, ∃ x,
      (caches i).copy ls tr.address tr.genattr.secure = some x ∧ (snoopOf tr.cmd).passes x = true :=
    hgps ▸ answers_passes hmem
  refine {
    idle := fun {i} hi => hidle i ((hmem i).2 hi)
    self := if_neg fun hp => (hmem port).1 hp rfl
    others := fun {i} hi => if_pos ((hmem i).2 hi)
    snooped := rfl
    exmon := rfl
    response := finalizeSnoopTr_response hresp
    address := finalizeSnoopTr_address.trans ((congrArg Transaction.address hreqc).trans haddr)
    secure := ?_
    exclusiveHandled := ?_
    shared := ?_
    dirty := ?_
    dataHit := ?_
    dataMiss := ?_
    dataKeep := ?_
    memKeep := ?_
    memWrite := ?_ }
  · rw [finalizeSnoopTr_genattr]
    exact (congrArg (fun t => t.genattr.secure) hreqc).trans hsec
  · rw [finalizeSnoopTr_genattr, htr₁]
    exact congrArg (fun t => t.genattr.exclusiveHandled) hreqc
  · rw [finalizeSnoopTr_genattr, collect_shared, hreq₁.shared, Bool.false_or, ← hgps]
    exact answers_shared hmem
  · rw [finalizeSnoopTr_genattr, collect_dirty, hreq₁.dirty, Bool.false_or, hallow, ← hpasses]
    cases tr.allowPassDirty <;> simp
  · intro hr v hv ⟨i, hi, hin⟩ o ho
    have hany : gps.any (fun g => g.genattr.datatransfer) = true :=
      hgps ▸ (answers_datatransfer hmem hr).2 ⟨i, hi, hin⟩
    have hdone : (collect ls gps (tr₁, st)).1.done = true := by
      rw [Transaction.done, collect_response_read gps herr hr hreq.snoopOf_ne (by rw [hreq₁.response]; exact Response.noConfusion), hany]
      rfl
    simp only [finalizeSnoopTr, hdone, if_true]
    exact collect_data gps hr haddr hreq₁.dataLength (hgps ▸ answers_data hreq.aligned hmem hv)
      (.inl (by simpa [List.any_eq_true] using hany)) o ho
  · intro hr hnone o ho
    have hany : gps.any (fun g => g.genattr.datatransfer) = false := by
      rw [← Bool.not_eq_true, ← hgps, answers_datatransfer hmem hr]
      rintro ⟨i, hi, hin⟩
      rw [((caches i).copy_eq_none ls).1 (hnone i hi)] at hin
      cases hin
    have hdone : (collect ls gps (tr₁, st)).1.done = false := by
      rw [Transaction.done, collect_response_read gps herr hr hreq.snoopOf_ne (by rw [hreq₁.response]; exact Response.noConfusion),
        hany, if_neg Bool.false_ne_true, hreq₁.response]
      rfl
    have hexec' : (collect ls gps (tr₁, st)).2.execDsGp = false := by
      rw [← Bool.not_eq_true, hexec, hpasses]
      rintro ⟨-, i, hi, x, hx, -⟩
      rw [hnone i hi] at hx
      cases hx
    have hread : ∃ ar, tr.cmd = .read ar := by
      revert hr
      rcases hreq.cases with h | h | h | h | h <;> rw [h] <;> simp [snoopOf, AC.isReadSnoop]
    obtain ⟨ar, har⟩ := hread
    simp only [finalizeSnoopTr, hdone, hexec', Bool.false_eq_true, if_false, downstream, hcmdc, har, readFrom]
    rw [show (collect ls gps (tr₁, st)).1.address = tr.address from (congrArg Transaction.address hreqc).trans haddr]
  · intro hr
    have hig : ∃ ar, tr.cmd = .ignoreRead ar := by
      revert hr
      rcases hreq.cases with h | h | h | h | h <;> rw [h] <;> simp [snoopOf, AC.isReadSnoop]
    obtain ⟨ar, har⟩ := hig
    have hd : (collect ls gps (tr₁, st)).1.data = tr.data := (collect_data_of_not_read gps hr).trans hdata
    simp only [finalizeSnoopTr]
    split
    · exact hd
    · simp only [downstream, hcmdc, har]
      exact hd
  · intro hk
    dsimp only
    rw [finalizeSnoopTr_mem hnw, if_neg]
    rw [hexec, hpasses]
    rintro ⟨ha, i, hi, x, hx, hp⟩
    rcases hk with hk | hk
    · rw [ha] at hk
      cases hk
    · rw [hk i hi x hx] at hp
      cases hp
  · intro ha v hv hex
    have hex' : (collect ls gps (tr₁, st)).2.execDsGp = true := hexec.2 ⟨ha, hpasses.2 hex⟩
    refine ⟨(collect ls gps (tr₁, st)).2.dsData, ?_, ?_⟩
    · dsimp only
      rw [finalizeSnoopTr_mem hnw, if_pos hex', (collect_line gps).2.1]
    · exact collect_dsData gps hreq₁.isReadOnce
        (fun g hg ht _ => (hgps ▸ answers_data hreq.aligned hmem hv) g hg ht)
        (fun h => absurd h (by simp [hst, hreq₁.isReadOnce])) hex'

/-! ### Steps -/

namespace Op

variable {op : Op} {port : ℕ} {c : Cache}

theorem lineRequest_fetch {f : Cache.Fetch} (h : op.pending = .fetch f) : LineRequest ls (op.transaction ls port c) := by
  simp only [transaction, h]
  exact ⟨by cases f <;> simp [Cache.Fetch.cmd], rfl, rfl, rfl, rfl, rfl, rfl, LineSize.getTag_getTag ls op.addr⟩

theorem lineRequest_cleanUnique (h : op.pending = .cleanUnique) (ht : (c.getLine ls op.addr).tag = ls.getTag op.addr) :
    LineRequest ls (op.transaction ls port c) := by
  simp only [transaction, h]
  exact ⟨by simp, rfl, rfl, rfl, rfl, rfl, rfl, by rw [ht, LineSize.getTag_getTag]⟩

end Op

namespace Sys

variable {s s' : Sys N} {port : Fin N}

/-- What a `begin` step does. -/
theorem step_begin {gp : Payload} (h : s.step ls (.begin port gp) = some s') :
    s.ops port = none ∧
      s' = s.setLocal port (runLoop ls port (s.caches port) (.begin port gp :: s.trace) gp 0 false) := by
  simp only [step] at h
  split at h
  · cases h
  · rename_i hnone
    exact ⟨hnone, (Option.some.inj h).symm⟩

/-- What an `exec` step does: the interconnect accepts the transaction of the port, and its cache runs on. -/
theorem step_exec {order : List (Fin N)} (h : s.step ls (.exec port order) = some s') :
    ∃ op acc, s.ops port = some op ∧
      bTransport ls s.waiting order s.caches s.exmon s.mem port (op.transaction ls port (s.caches port)) = some acc ∧
      s' = (s.accept port acc).setLocal port
        (resume ls port (acc.caches port) (s.accept port acc).trace op acc.tr) := by
  obtain ⟨op, hop, h⟩ := Option.bind_eq_some_iff.1 h
  obtain ⟨acc, hacc, rfl⟩ := Option.map_eq_some_iff.1 h
  exact ⟨op, acc, hop, hacc, rfl⟩

/-- A step that carries out an exclusive `CleanUnique` finds the port set in the PoS monitor. -/
def CleanUniqueProceeds (s : Sys N) : Action N → Prop
  | .exec port _ => ∀ op, s.ops port = some op → op.pending = .cleanUnique → op.gp.isExclusive = true →
      s.exmon.isSet port = true
  | _ => True

/-- The PoS monitor lets the transaction of a step pass. -/
theorem CleanUniqueProceeds.passMonitor (ls : LineSize) {order : List (Fin N)} {op : Op} (h : s.CleanUniqueProceeds (.exec port order))
    (hop : s.ops port = some op) :
    (passMonitor s.exmon port (op.transaction ls port (s.caches port))).2.2 ≠ false := by
  intro hp
  obtain ⟨hex, hcu, hset, -⟩ := passMonitor_refuses hp
  have hpend : op.pending = .cleanUnique := by
    revert hcu
    unfold Op.transaction
    cases op.pending with
    | fetch f => cases f <;> simp [Transaction.isCleanUnique, Cache.Fetch.cmd]
    | cleanUnique => exact fun _ => rfl
    | writeclean f => simp [Transaction.isCleanUnique]
    | writeback f => simp [Transaction.isCleanUnique]
  rw [h op hop hpend (by simpa [Op.transaction, hpend] using hex)] at hset
  cases hset

end Sys

end LibSystemCTLM.Ace
