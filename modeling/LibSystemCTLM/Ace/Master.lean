import LibSystemCTLM.Ace.Interconnect
import LibSystemCTLM.Foundation.Runs

/-!
# Masters behind write-back caches on one interconnect

`ACECacheWriteBack::handle_load` and `handle_store` (`cache-ace.h`), run by `N` masters behind
`N` caches on the ACE ports of one interconnect with a memory that answers OK.

## The model

A cache runs one payload at a time (`m_mutex`). A payload runs without interruption until the
cache blocks in a transaction (`Pending`), and a step carries out the transaction of one port,
with its snoops and the requester's own line update, and lets the cache run on to its next
transaction or to the end of the payload. Between its transactions the other ports take steps
of their own, so a miss, its eviction and its fetch can have snoops of other masters between
them. The loop of a payload takes no more iterations than bytes are left; `fuel` counts these.

A run keeps a trace, newest event first: the payload that begins, the snoops sent to the other
ports, every segment read from or written to a line, and the payload that is returned.

## Honest scope

No non-shareable region is set up, and the masters send loads and stores only: barriers, DVM
and cache maintenance payloads are left out.
-/

namespace LibSystemCTLM.Ace

open Foundation Cache

/-- What happens at a port. -/
inductive Event (N : ℕ) where
  /-- The master behind the port sends a payload. -/
  | begin (port : Fin N) (gp : Payload)
  /-- A transaction of the port on the line `addr` snoops the other ports. -/
  | snoop (port : Fin N) (ac : AC) (addr : Addr)
  /-- `n` bytes of the payload from `pos` on are read from the line; `gp` has them. -/
  | load (port : Fin N) (gp : Payload) (pos n : ℕ)
  /-- `n` bytes of the payload from `pos` on are written to the line. -/
  | store (port : Fin N) (gp : Payload) (pos n : ℕ)
  /-- The payload is returned to the master. -/
  | ret (port : Fin N) (gp : Payload)

/-- A payload under way: `handle_load` or `handle_store` blocked in a transaction. -/
structure Op where
  gp : Payload
  pos : ℕ
  /-- `exclusive_failed` of `handle_load`. -/
  exclusiveFailed : Bool := false
  pending : Pending

namespace Op

variable (ls : LineSize) (op : Op)

/-- `addr` of the loop: the address of the byte at `pos`. -/
def addr : Addr := op.gp.addrAt op.pos

/-- The transaction the cache is blocked in. -/
def transaction (port : ℕ) (c : Cache) : Transaction :=
  let l := c.getLine ls op.addr
  match op.pending with
  | .writeclean _ =>
    { portId := port, cmd := .write .writeClean, address := l.tag, dataLength := ls.size, data := l.data
      genattr := { secure := l.secure, domain := .inner } }
  | .writeback _ =>
    { portId := port, cmd := .write .writeBack, address := l.tag, dataLength := ls.size, data := l.data
      genattr := { secure := l.secure, domain := .inner } }
  | .fetch f =>
    { portId := port, cmd := f.cmd, address := ls.getTag op.addr, dataLength := ls.size, data := l.data
      genattr := { secure := op.gp.getSecure, exclusive := decide (f = .readShared) && op.gp.isExclusive, domain := .inner } }
  | .cleanUnique =>
    { portId := port, cmd := .ignoreRead .cleanUnique, address := l.tag, dataLength := ls.size, data := l.data
      genattr := { secure := op.gp.getSecure, exclusive := op.gp.isExclusive, domain := .inner } }

/-- The payload after its fetch was answered with `tr`: only `read_shared` hands the exclusive response on. -/
def fetched (f : Fetch) (tr : Transaction) : Payload :=
  if f = .readShared then op.gp.setExclusiveHandled tr.genattr.exclusiveHandled else op.gp

/-- The payload after its `clean_unique` was answered with `tr`, the line being valid or not. -/
def cleaned (valid : Bool) (tr : Transaction) : Payload :=
  if valid then op.gp.setExclusiveHandled tr.genattr.exclusiveHandled else op.gp

end Op

/-- A cache between two transactions: the payload is blocked in the next one, or returned. -/
structure Local (N : ℕ) where
  cache : Cache
  trace : List (Event N)
  op : Option Op

section Loops

variable {N : ℕ} (ls : LineSize) (port : Fin N)

/-- The end of `handle_load`. -/
def returnLoad (c : Cache) (trace : List (Event N)) (gp : Payload) (exclusiveFailed : Bool) : Local N :=
  let gp := if gp.isExclusive && !exclusiveFailed then gp.setExokay else gp
  ⟨c, .ret port { gp with response := .ok } :: trace, none⟩

/-- The loop of `handle_load`. -/
def loadLoop : ℕ → Cache → List (Event N) → Payload → ℕ → Bool → Local N
  | 0, c, trace, gp, _, exclusiveFailed => returnLoad port c trace gp exclusiveFailed
  | fuel + 1, c, trace, gp, pos, exclusiveFailed =>
    if pos < gp.dataLength then
      if c.inCache ls (gp.addrAt pos) gp.getSecure then
        let n := toWrite ls gp pos
        let gp' := c.readLine ls gp pos
        loadLoop fuel c (.load port gp' pos n :: trace) gp' (pos + n) exclusiveFailed
      else
        -- `exclusive || get_toggle()`: the toggle is left alone by an exclusive load
        let c' := if gp.isExclusive then c else c.getToggle
        let f : Fetch := if gp.isExclusive || c'.toggle then .readShared else .readNotSharedDirty
        let (c'', pending) := c'.startFetch ls (gp.addrAt pos) f
        ⟨c'', trace, some { gp, pos, exclusiveFailed, pending }⟩
    else returnLoad port c trace gp exclusiveFailed

/-- The end of `handle_store`. -/
def returnStore (c : Cache) (trace : List (Event N)) (gp : Payload) (pos : ℕ) : Local N :=
  let gp := if gp.isExclusive && decide (pos = gp.dataLength) then gp.setExokay else gp
  ⟨c, .ret port { gp with response := .ok } :: trace, none⟩

/-- The loop of `handle_store`. -/
def storeLoop : ℕ → Cache → List (Event N) → Payload → ℕ → Local N
  | 0, c, trace, gp, pos => returnStore port c trace gp pos
  | fuel + 1, c, trace, gp, pos =>
    if pos < gp.dataLength then
      if gp.isExclusive && !c.monitorIsSet (gp.addrAt pos) then returnStore port c trace gp pos
      else if c.inCache ls (gp.addrAt pos) gp.getSecure then
        if c.isUnique ls (gp.addrAt pos) then
          let n := toWrite ls gp pos
          let c' := c.writeLine ls gp pos true
          let c'' := if gp.isExclusive then c'.monitorReset (gp.addrAt pos) else c'
          storeLoop fuel c'' (.store port gp pos n :: trace) gp (pos + n)
        else ⟨c, trace, some { gp, pos, pending := .cleanUnique }⟩
      else
        let f : Fetch := if toWrite ls gp pos = ls.size then .makeUnique else .readUnique
        let (c', pending) := c.startFetch ls (gp.addrAt pos) f
        ⟨c', trace, some { gp, pos, pending }⟩
    else returnStore port c trace gp pos

/-- The loop of the payload from `pos` on. -/
def runLoop (c : Cache) (trace : List (Event N)) (gp : Payload) (pos : ℕ) (exclusiveFailed : Bool) : Local N :=
  if gp.write then storeLoop ls port (gp.dataLength - pos) c trace gp pos
  else loadLoop ls port (gp.dataLength - pos) c trace gp pos exclusiveFailed

/-- `handle_load` and `handle_store` after the fetch was answered with `tr`. -/
def resumeFetch (c : Cache) (trace : List (Event N)) (op : Op) (f : Fetch) (tr : Transaction) : Local N :=
  let c := c.fillLine ls op.addr f tr
  let gp := op.fetched f tr
  if gp.isExclusive && !gp.write then
    runLoop ls port (c.monitorSet op.addr) trace gp.clearExokay op.pos (op.exclusiveFailed || !gp.hasExokay)
  else runLoop ls port c trace gp op.pos op.exclusiveFailed

/-- `handle_store` after its `clean_unique` was answered with `tr`. -/
def resumeCleanUnique (c : Cache) (trace : List (Event N)) (op : Op) (tr : Transaction) : Local N :=
  let c := c.afterCleanUnique ls op.addr tr
  let gp := op.cleaned (c.getLine ls op.addr).valid tr
  if gp.isExclusive then
    if gp.hasExokay then runLoop ls port c trace gp.clearExokay op.pos op.exclusiveFailed
    else returnStore port (c.monitorReset op.addr) trace gp op.pos
  else runLoop ls port c trace gp op.pos op.exclusiveFailed

/-- The cache runs on after its transaction was answered with `tr`. -/
def resume (c : Cache) (trace : List (Event N)) (op : Op) (tr : Transaction) : Local N :=
  match op.pending with
  | .writeclean f =>
    let (c', pending) := c.afterWriteclean ls op.addr f tr
    ⟨c', trace, some { op with pending }⟩
  | .writeback f =>
    let (c', pending) := c.afterWriteback ls op.addr f tr
    ⟨c', trace, some { op with pending }⟩
  | .fetch f => resumeFetch ls port c trace op f tr
  | .cleanUnique => resumeCleanUnique ls port c trace op tr

/-! #### A payload under way asks for what it began with -/

theorem fetched_request (op : Op) (f : Fetch) (tr : Transaction) : (op.fetched f tr).request = op.gp.request := by
  unfold Op.fetched
  split <;> simp

theorem cleaned_request (op : Op) (valid : Bool) (tr : Transaction) : (op.cleaned valid tr).request = op.gp.request := by
  unfold Op.cleaned
  split <;> simp

theorem loadLoop_request (fuel : ℕ) (c : Cache) (trace : List (Event N)) (gp : Payload) (pos : ℕ) (ef : Bool)
    (hw : gp.write = false) {op : Op} (h : (loadLoop ls port fuel c trace gp pos ef).op = some op) :
    op.gp.request = gp.request := by
  induction fuel generalizing c trace gp pos with
  | zero => exact absurd h (by simp [loadLoop, returnLoad])
  | succ fuel ih =>
    simp only [loadLoop] at h
    split at h
    · split at h
      · exact (ih _ _ (c.readLine ls gp pos) _ hw h).trans (readLine_request ls c pos hw)
      · obtain rfl := Option.some.inj h
        rfl
    · exact absurd h (by simp [returnLoad])

theorem storeLoop_request (fuel : ℕ) (c : Cache) (trace : List (Event N)) (gp : Payload) (pos : ℕ) {op : Op}
    (h : (storeLoop ls port fuel c trace gp pos).op = some op) : op.gp.request = gp.request := by
  induction fuel generalizing c trace pos with
  | zero => exact absurd h (by simp [storeLoop, returnStore])
  | succ fuel ih =>
    simp only [storeLoop] at h
    split at h
    · split at h
      · exact absurd h (by simp [returnStore])
      · split at h
        · split at h
          · exact ih _ _ _ h
          · obtain rfl := Option.some.inj h
            rfl
        · obtain rfl := Option.some.inj h
          rfl
    · exact absurd h (by simp [returnStore])

theorem runLoop_request (c : Cache) (trace : List (Event N)) (gp : Payload) (pos : ℕ) (ef : Bool) {op : Op}
    (h : (runLoop ls port c trace gp pos ef).op = some op) : op.gp.request = gp.request := by
  unfold runLoop at h
  split at h
  · exact storeLoop_request ls port _ _ _ _ _ h
  · rename_i hw
    exact loadLoop_request ls port _ _ _ _ _ _ (Bool.eq_false_iff.2 hw) h

/-- A payload that stays under way asks for what it asked for. -/
theorem resume_request (c : Cache) (trace : List (Event N)) (op : Op) (tr : Transaction) {op' : Op}
    (h : (resume ls port c trace op tr).op = some op') : op'.gp.request = op.gp.request := by
  unfold resume at h
  split at h
  · obtain rfl := Option.some.inj h
    rfl
  · obtain rfl := Option.some.inj h
    rfl
  · rename_i f hf
    unfold resumeFetch at h
    dsimp only at h
    split at h
    · rw [runLoop_request ls port _ _ _ _ _ h, Payload.clearExokay_request, fetched_request]
    · exact (runLoop_request ls port _ _ _ _ _ h).trans (fetched_request op f tr)
  · unfold resumeCleanUnique at h
    dsimp only at h
    split at h
    · split at h
      · rw [runLoop_request ls port _ _ _ _ _ h, Payload.clearExokay_request, cleaned_request]
      · exact absurd h (by simp [returnStore])
    · exact (runLoop_request ls port _ _ _ _ _ h).trans (cleaned_request op _ tr)

end Loops

/-! ### The system -/

/-- The caches, what they are doing, the PoS monitor, the downstream memory and the trace. -/
structure Sys (N : ℕ) where
  caches : Fin N → Cache
  ops : Fin N → Option Op
  exmon : PosMonitor N
  mem : Addr → Byte
  trace : List (Event N)

/-- What can happen next. -/
inductive Action (N : ℕ) where
  /-- The master at the port sends a payload. -/
  | begin (port : Fin N) (gp : Payload)
  /-- The transaction of the port is carried out; the snooped ports answer in the given order. -/
  | exec (port : Fin N) (order : List (Fin N))
  /-- `release_lock_thread` of the PoS monitor. -/
  | releaseLock

namespace Sys

variable {N : ℕ} (ls : LineSize)

/-- `write_ongoing` of a port's cache. -/
def waiting (s : Sys N) (i : Fin N) : Bool := ((s.ops i).map (·.pending.writeOngoing)).getD false

/-- The cache of a port has run on. -/
def setLocal (s : Sys N) (port : Fin N) (l : Local N) : Sys N :=
  { s with
    caches := Function.update s.caches port l.cache
    ops := Function.update s.ops port l.op
    trace := l.trace }

/-- The state after the interconnect carried out a transaction of `port`. -/
def accept (s : Sys N) (port : Fin N) (acc : Accepted N) : Sys N :=
  { s with
    caches := acc.caches
    exmon := acc.exmon
    mem := acc.mem
    trace := match acc.snooped with
      | some ac => .snoop port ac acc.tr.address :: s.trace
      | none => s.trace }

/-- One step of the system. -/
def step (s : Sys N) : Action N → Option (Sys N)
  | .begin port gp =>
    match s.ops port with
    | some _ => none
    | none => some (s.setLocal port (runLoop ls port (s.caches port) (.begin port gp :: s.trace) gp 0 false))
  | .exec port order =>
    (s.ops port).bind fun op =>
      let tr := op.transaction ls port (s.caches port)
      (bTransport ls s.waiting order s.caches s.exmon s.mem port tr).map fun acc =>
        let s' := s.accept port acc
        s'.setLocal port (resume ls port (s'.caches port) s'.trace op acc.tr)
  | .releaseLock => some { s with exmon := s.exmon.setLock false }

/-- The system at reset: no line is valid; what the line buffers and the memory hold is arbitrary. -/
def init (cacheSz : Fin N → ℕ) (buffers : Fin N → ℕ → ℕ → Byte) (mem : Addr → Byte) : Sys N where
  caches := fun i => { cacheSz := cacheSz i, lines := fun x => { data := buffers i x } }
  ops := fun _ => none
  exmon := {}
  mem := mem
  trace := []

end Sys

end LibSystemCTLM.Ace
