import LibSystemCTLM.Ace.Transaction

/-!
# The write-back cache

`IACECache` and the line operations of `ACECacheWriteBack` (`cache-ace.h`): the lines, the
snoop handlers, the bytes a segment of a payload reads from a line or writes to it, the
exclusive monitor, and what an eviction and the transactions of a miss do to the cache itself.

## The model

A cache is direct mapped: `CACHE_SZ / CACHELINE_SZ` lines, each of them found at the index of
its tag. The buffer of a line is a function from the offset. The eight snoop handlers are one
definition, `handleSnoop`, applied to a `SnoopRule` that says what the handler does with the
line it hits; each handler keeps its name.
-/

namespace LibSystemCTLM.Ace

open Foundation

/-- A payload of the master behind a cache. -/
structure Payload where
  /-- `is_write`. -/
  write : Bool
  address : Addr
  dataLength : ℕ
  data : ℕ → Byte
  /-- The byte-enable array; empty when there is none. -/
  byteEnable : List Byte := []
  /-- The `genattr_extension`, when there is one. -/
  attr : Option Genattr := none
  response : Response := .incomplete

namespace Payload

variable (gp : Payload)

/-- The byte at position `pos` is enabled: `be[pos % be_len] == TLM_BYTE_ENABLED`, and every byte is
without byte enables. -/
def enabled (pos : ℕ) : Bool :=
  gp.byteEnable.isEmpty || decide (gp.byteEnable.getD (pos % gp.byteEnable.length) 0 = byteEnabled)

/-- The address of the byte at position `pos`. -/
def addrAt (pos : ℕ) : Addr := gp.address + BitVec.ofNat 64 pos

/-- `is_exclusive`. -/
def isExclusive : Bool := (gp.attr.map (·.exclusive)).getD false

/-- `has_exokay`. -/
def hasExokay : Bool := (gp.attr.map (·.exclusiveHandled)).getD false

/-- `get_secure`. -/
def getSecure : Bool := (gp.attr.map (·.secure)).getD false

/-- `set_exclusive_handled`, where there is an extension. -/
def setExclusiveHandled (b : Bool) : Payload :=
  { gp with attr := gp.attr.map fun a => { a with exclusiveHandled := b } }

/-- `clear_exokay`. -/
def clearExokay : Payload := gp.setExclusiveHandled false

/-- `set_exokay`. -/
def setExokay : Payload := gp.setExclusiveHandled true

/-- What the master asked for: all but the data read, the response and the exclusive response. -/
def request : Payload :=
  { gp.setExclusiveHandled false with data := if gp.write then gp.data else fun _ => 0, response := .incomplete }

@[simp] theorem setExclusiveHandled_request (b : Bool) : (gp.setExclusiveHandled b).request = gp.request := by
  cases h : gp.attr <;> simp [setExclusiveHandled, request, h]

@[simp] theorem clearExokay_request : gp.clearExokay.request = gp.request := gp.setExclusiveHandled_request false

@[simp] theorem setExokay_request : gp.setExokay.request = gp.request := gp.setExclusiveHandled_request true

@[simp] theorem response_request (r : Response) : Payload.request { gp with response := r } = gp.request := rfl

/-- Payloads that ask for the same are exclusive alike. -/
theorem isExclusive_request : gp.request.isExclusive = gp.isExclusive := by
  cases h : gp.attr <;> simp [setExclusiveHandled, request, isExclusive, h]

theorem getSecure_request : gp.request.getSecure = gp.getSecure := by
  cases h : gp.attr <;> simp [setExclusiveHandled, request, getSecure, h]

@[simp] theorem setExclusiveHandled_getSecure (b : Bool) : (gp.setExclusiveHandled b).getSecure = gp.getSecure := by
  cases h : gp.attr <;> simp [setExclusiveHandled, getSecure, h]

@[simp] theorem setExclusiveHandled_isExclusive (b : Bool) :
    (gp.setExclusiveHandled b).isExclusive = gp.isExclusive := by
  cases h : gp.attr <;> simp [setExclusiveHandled, isExclusive, h]

end Payload

/-! ### Lines -/

/-- `CacheLine`. -/
structure CacheLine where
  valid : Bool := false
  tag : Addr := 0
  shared : Bool := false
  dirty : Bool := false
  data : ℕ → Byte := fun _ => 0
  /-- `genattr.get_secure()`. -/
  secure : Bool := true

/-- `IACECache`. -/
structure Cache where
  /-- The template parameter `CACHE_SZ`. -/
  cacheSz : ℕ
  /-- `m_cacheline`. -/
  lines : ℕ → CacheLine
  /-- `m_toggle`. -/
  toggle : Bool := false
  /-- `m_monitor`: the addresses of the exclusive sequences under way. -/
  monitor : List Addr := []

namespace Cache

variable (ls : LineSize) (c : Cache)

/-- `get_index`. -/
def getIndex (tag : Addr) : ℕ := tag.toNat % c.cacheSz / ls.size

/-- The index `get_line` looks at. -/
def lineIndex (addr : Addr) : ℕ := c.getIndex ls (ls.getTag addr)

/-- `get_line`. -/
def getLine (addr : Addr) : CacheLine := c.lines (c.lineIndex ls addr)

/-- The cache with the line of `addr` changed. -/
def setLine (addr : Addr) (l : CacheLine) : Cache := { c with lines := Function.update c.lines (c.lineIndex ls addr) l }

/-- `in_cache`. -/
def inCache (addr : Addr) (isSecure : Bool) : Bool :=
  let l := c.getLine ls addr
  l.valid && decide (l.tag = ls.getTag addr) && decide (l.secure = isSecure)

/-- `is_unique`. -/
def isUnique (addr : Addr) : Bool := !(c.getLine ls addr).shared

@[simp] theorem setLine_cacheSz (addr : Addr) (l : CacheLine) : (c.setLine ls addr l).cacheSz = c.cacheSz := rfl

@[simp] theorem setLine_monitor (addr : Addr) (l : CacheLine) : (c.setLine ls addr l).monitor = c.monitor := rfl

@[simp] theorem setLine_toggle (addr : Addr) (l : CacheLine) : (c.setLine ls addr l).toggle = c.toggle := rfl

@[simp] theorem lineIndex_setLine (addr a : Addr) (l : CacheLine) :
    (c.setLine ls addr l).lineIndex ls a = c.lineIndex ls a := rfl

@[simp] theorem lineIndex_getTag (addr : Addr) : c.lineIndex ls (ls.getTag addr) = c.lineIndex ls addr := by
  rw [lineIndex, lineIndex, LineSize.getTag_getTag]

@[simp] theorem getLine_getTag (addr : Addr) : c.getLine ls (ls.getTag addr) = c.getLine ls addr := by
  rw [getLine, getLine, lineIndex_getTag]

@[simp] theorem inCache_getTag (addr : Addr) (s : Bool) : c.inCache ls (ls.getTag addr) s = c.inCache ls addr s := by
  rw [inCache, inCache, getLine_getTag, LineSize.getTag_getTag]

theorem lines_setLine (addr : Addr) (l : CacheLine) (x : ℕ) :
    (c.setLine ls addr l).lines x = if x = c.lineIndex ls addr then l else c.lines x :=
  Function.update_apply ..

theorem getLine_setLine (addr a : Addr) (l : CacheLine) :
    (c.setLine ls addr l).getLine ls a = if c.lineIndex ls a = c.lineIndex ls addr then l else c.getLine ls a := by
  rw [getLine, lines_setLine]
  rfl

@[simp] theorem getLine_setLine_self (addr : Addr) (l : CacheLine) : (c.setLine ls addr l).getLine ls addr = l := by
  rw [getLine_setLine, if_pos rfl]

@[simp] theorem setLine_setLine (addr : Addr) (l l' : CacheLine) :
    (c.setLine ls addr l).setLine ls addr l' = c.setLine ls addr l' := by
  rw [setLine, lineIndex_setLine, setLine, setLine, Function.update_idem]

theorem getLine_setLine_of_ne {addr a : Addr} (l : CacheLine) (h : c.lineIndex ls a ≠ c.lineIndex ls addr) :
    (c.setLine ls addr l).getLine ls a = c.getLine ls a := by
  rw [getLine_setLine, if_neg h]

theorem inCache_eq_true {addr : Addr} {s : Bool} :
    c.inCache ls addr s = true ↔ (c.getLine ls addr).valid = true ∧ (c.getLine ls addr).tag = ls.getTag addr ∧
      (c.getLine ls addr).secure = s := by
  simp [inCache, and_assoc]

/-! ### The exclusive monitor (`MasterExclusiveMonitor`) -/

/-- `m_monitor.set`. -/
def monitorSet (addr : Addr) : Cache := if addr ∈ c.monitor then c else { c with monitor := c.monitor ++ [addr] }

/-- `m_monitor.reset`. -/
def monitorReset (addr : Addr) : Cache := { c with monitor := c.monitor.filter (· ≠ addr) }

/-- `m_monitor.is_set`. -/
def monitorIsSet (addr : Addr) : Bool := decide (addr ∈ c.monitor)

/-! ### Bytes of a segment -/

/-- `to_write`: the bytes from `pos` to the end of the payload or of the line, whichever is first. -/
def toWrite (gp : Payload) (pos : ℕ) : ℕ := min (gp.dataLength - pos) (ls.size - ls.getLineOffset (gp.addrAt pos))

/-- `read_line`: the payload with the enabled bytes of the segment at `pos` read from the line. -/
def readLine (gp : Payload) (pos : ℕ) : Payload :=
  let l := c.getLine ls (gp.addrAt pos)
  let off := ls.getLineOffset (gp.addrAt pos)
  { gp with
    data := fun i =>
      if pos ≤ i ∧ i < pos + toWrite ls gp pos ∧ gp.enabled i then l.data (off + (i - pos)) else gp.data i }

/-- Reading does not change what a load asks for. -/
theorem readLine_request {gp : Payload} (pos : ℕ) (h : gp.write = false) : (c.readLine ls gp pos).request = gp.request := by
  simp [readLine, Payload.request, Payload.setExclusiveHandled, h]

/-- `write_line`: the cache with the enabled bytes of the segment at `pos` written to the line, whose
dirty flag becomes `dirty`. -/
def writeLine (gp : Payload) (pos : ℕ) (dirty : Bool) : Cache :=
  let l := c.getLine ls (gp.addrAt pos)
  let off := ls.getLineOffset (gp.addrAt pos)
  c.setLine ls (gp.addrAt pos) { l with
    data := fun o =>
      if off ≤ o ∧ o < off + toWrite ls gp pos ∧ gp.enabled (pos + (o - off)) then gp.data (pos + (o - off))
      else l.data o
    dirty := dirty }

/-! ### Snoop handlers -/

/-- What a snoop handler does with the line it hits. -/
structure SnoopRule where
  /-- The line afterwards. -/
  line : CacheLine → CacheLine
  /-- The attributes of the answer, from those of the snoop. -/
  attr : CacheLine → Genattr → Genattr
  /-- `read_line` is called and the answer carries the data. -/
  transfers : CacheLine → Bool
  /-- The exclusive monitor is reset for the address of the snoop. -/
  resets : Bool

/-- A snoop handler: nothing happens unless the line is in the cache. -/
def handleSnoop (r : SnoopRule) (addr : Addr) (gp : SnoopGp) : Cache × SnoopGp :=
  if c.inCache ls addr gp.genattr.secure then
    let l := c.getLine ls addr
    let c' := c.setLine ls addr (r.line l)
    let g := r.attr l gp.genattr
    (if r.resets then c'.monitorReset addr else c',
      { gp with
        data := fun i =>
          if r.transfers l ∧ i < ls.size - ls.getLineOffset addr then l.data (ls.getLineOffset addr + i) else gp.data i
        genattr := if r.transfers l then { g with datatransfer := true } else g
        response := .ok })
  else (c, { gp with response := .ok })

/-- `set_was_unique`, when the line is not shared. -/
def wasUnique (l : CacheLine) (g : Genattr) : Genattr := if l.shared then g else { g with wasUnique := true }

/-- `handle_readonce`. -/
def handleReadonce : Addr → SnoopGp → Cache × SnoopGp :=
  c.handleSnoop ls {
    line := fun l => { l with shared := true }
    attr := fun _ g => { g with shared := true }
    transfers := fun _ => true
    resets := false }

/-- `handle_readshared`. -/
def handleReadshared : Addr → SnoopGp → Cache × SnoopGp :=
  c.handleSnoop ls {
    line := fun l => { l with shared := true, dirty := false }
    attr := fun l g => { wasUnique l g with shared := true, dirty := l.dirty || g.dirty }
    transfers := fun _ => true
    resets := false }

/-- `handle_readclean`. -/
def handleReadclean : Addr → SnoopGp → Cache × SnoopGp :=
  c.handleSnoop ls {
    line := fun l => { l with shared := true }
    attr := fun l g => { wasUnique l g with shared := true }
    transfers := fun _ => true
    resets := false }

/-- `handle_readnotshareddirty`: handled as `ReadClean`. -/
def handleReadnotshareddirty : Addr → SnoopGp → Cache × SnoopGp := c.handleReadclean ls

/-- `handle_readunique`. -/
def handleReadunique : Addr → SnoopGp → Cache × SnoopGp :=
  c.handleSnoop ls {
    line := fun l => { l with valid := false }
    attr := fun l g => { wasUnique l g with shared := false, dirty := l.dirty || g.dirty }
    transfers := fun _ => true
    resets := true }

/-- `handle_cleaninvalid`. -/
def handleCleaninvalid : Addr → SnoopGp → Cache × SnoopGp :=
  c.handleSnoop ls {
    line := fun l => { l with valid := false }
    attr := fun l g => { wasUnique l g with shared := false, dirty := l.dirty || g.dirty }
    transfers := fun l => l.dirty
    resets := true }

/-- `handle_cleanshared`. -/
def handleCleanshared : Addr → SnoopGp → Cache × SnoopGp :=
  c.handleSnoop ls {
    line := fun l => { l with shared := true, dirty := false }
    attr := fun l g => { wasUnique l g with shared := true, dirty := l.dirty || g.dirty }
    transfers := fun l => l.dirty
    resets := false }

/-- `handle_makeinvalid`. -/
def handleMakeinvalid : Addr → SnoopGp → Cache × SnoopGp :=
  c.handleSnoop ls {
    line := fun l => { l with valid := false }
    attr := fun _ g => g
    transfers := fun _ => false
    resets := true }

/-- The `switch` of `b_transport_snoop`. A DVM message changes nothing in the cache. -/
def bTransportSnoop (snoop : AC) (addr : Addr) (gp : SnoopGp) : Cache × SnoopGp :=
  match snoop with
  | .readOnce => c.handleReadonce ls addr gp
  | .readShared => c.handleReadshared ls addr gp
  | .readClean => c.handleReadclean ls addr gp
  | .readNotSharedDirty => c.handleReadnotshareddirty ls addr gp
  | .readUnique => c.handleReadunique ls addr gp
  | .cleanInvalid => c.handleCleaninvalid ls addr gp
  | .cleanShared => c.handleCleanshared ls addr gp
  | .makeInvalid => c.handleMakeinvalid ls addr gp
  | .dvmMessage | .dvmComplete => (c, { gp with response := .ok })

/-! ### Misses -/

/-- The transactions that bring a line into the cache, named after the functions that issue them. -/
inductive Fetch where
  | readShared | readNotSharedDirty | readUnique | makeUnique
  deriving DecidableEq, Repr

/-- The command and the AxSNOOP code of the transaction. -/
def Fetch.cmd : Fetch → Command
  | .readShared => .read .readShared
  | .readNotSharedDirty => .read .readNotSharedDirty
  | .readUnique => .read .readUnique
  | .makeUnique => .ignoreRead .makeUnique

/-- The transaction a master waits for. -/
inductive Pending where
  /-- `writeclean`, in the eviction before a fetch. -/
  | writeclean (next : Fetch)
  /-- `writeback`, in the eviction before a fetch. -/
  | writeback (next : Fetch)
  | fetch (f : Fetch)
  | cleanUnique
  deriving DecidableEq, Repr

/-- `write_ongoing`. An `Evict` returns at once, so it is never seen going on. -/
def Pending.writeOngoing : Pending → Bool
  | .writeclean _ | .writeback _ => true
  | .fetch _ | .cleanUnique => false

/-- `get_toggle`: the toggle afterwards is the value returned. -/
def getToggle : Cache := { c with toggle := !c.toggle }

/-- `evict`: the interconnect answers OK at once and the line becomes invalid. -/
def evict (addr : Addr) : Cache := c.setLine ls addr { c.getLine ls addr with valid := false }

/-- `read_shared`, `read_not_shared_dirty`, `read_unique` and `make_unique` up to their first blocking
transaction: the line in the way is evicted (`evict_line`). -/
def startFetch (addr : Addr) (f : Fetch) : Cache × Pending :=
  let l := c.getLine ls addr
  if l.valid then
    if l.dirty then
      let c' := c.getToggle
      (c', if c'.toggle then .writeclean f else .writeback f)
    else (c.evict ls addr, .fetch f)
  else (c, .fetch f)

/-- `writeclean`, once it was answered with `tr`. -/
def writeclean (addr : Addr) (tr : Transaction) : Cache :=
  if tr.response = .ok then c.setLine ls addr { c.getLine ls addr with dirty := false } else c

/-- `writeback`, once it was answered with `tr`. -/
def writeback (addr : Addr) (tr : Transaction) : Cache :=
  if tr.response = .ok then c.setLine ls addr { c.getLine ls addr with valid := false } else c

/-- `evict_line` after its `writeclean`, which was answered with `tr`. -/
def afterWriteclean (addr : Addr) (f : Fetch) (tr : Transaction) : Cache × Pending :=
  let c' := c.writeclean ls addr tr
  if (c'.getLine ls addr).dirty then (c', .writeback f) else (c'.evict ls addr, .fetch f)

/-- `evict_line` after its `writeback`, which was answered with `tr`. -/
def afterWriteback (addr : Addr) (f : Fetch) (tr : Transaction) : Cache × Pending := (c.writeback ls addr tr, .fetch f)

/-- The line after a fetch that was answered with `tr`, which has its data in the line already. -/
def fillLine (addr : Addr) (f : Fetch) (tr : Transaction) : Cache :=
  if tr.response = .ok then
    c.setLine ls addr {
      valid := true
      tag := ls.getTag addr
      shared := if f = .makeUnique then false else tr.genattr.shared
      dirty := if f = .makeUnique then true else tr.genattr.dirty
      data := tr.data
      secure := tr.genattr.secure }
  else c.setLine ls addr { c.getLine ls addr with data := tr.data }

/-- The line after a `clean_unique` that was answered with `tr`: unique, or evicted again when a snoop
invalidated it in the meantime. -/
def afterCleanUnique (addr : Addr) (tr : Transaction) : Cache :=
  let l := c.getLine ls addr
  if tr.response = .ok then
    if l.valid then c.setLine ls addr { l with shared := false }
    else (c.setLine ls addr { l with valid := true }).evict ls addr
  else c

end Cache

end LibSystemCTLM.Ace
