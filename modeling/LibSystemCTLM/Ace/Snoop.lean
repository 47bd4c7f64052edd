import LibSystemCTLM.Ace.Interconnect
import LibSystemCTLM.Foundation.Coherence

/-!
# What a snoop does and what its answers add up to

`Cache.copy` is how a cache holds a line address under a security state, and `AC.after` what a
snoop makes of a copy (`copy_snoopAnswer`). The answer of a cache says in turn how it held the
line (`snoopAnswer_shared`, `snoopAnswer_dirty`). `processSnoop_eq` separates the two sides of a
snoop transaction: each port's cache changes by its own answer, whatever the order, and the
transaction collects the answers one by one (`collect`). What is collected is described without
the order: the shared and the dirty flag of the transaction are those of some answer, and its
data and the data written downstream are what the answers that carry data agree on.
-/

namespace LibSystemCTLM.Ace

open Foundation Foundation.Coherence

variable {N : ℕ} (ls : LineSize)

namespace Cache

variable (c : Cache)

/-- How the cache holds the line of `addr` under the security state. -/
def copy (addr : Addr) (secure : Bool) : Option Copy :=
  if c.inCache ls addr secure then some ⟨(c.getLine ls addr).shared, (c.getLine ls addr).dirty⟩ else none

@[simp] theorem copy_getTag (addr : Addr) (s : Bool) : c.copy ls (ls.getTag addr) s = c.copy ls addr s := by
  simp only [copy, inCache_getTag, getLine_getTag]

theorem copy_eq_some {addr : Addr} {s : Bool} {x : Copy} : c.copy ls addr s = some x ↔
    c.inCache ls addr s = true ∧ x = ⟨(c.getLine ls addr).shared, (c.getLine ls addr).dirty⟩ := by
  unfold copy
  split
  · rename_i h
    simp [h, eq_comm]
  · rename_i h
    simp [h]

theorem copy_eq_none {addr : Addr} {s : Bool} : c.copy ls addr s = none ↔ c.inCache ls addr s = false := by
  unfold copy
  split <;> simp_all

theorem copy_of_inCache {addr : Addr} {s : Bool} (h : c.inCache ls addr s = true) :
    c.copy ls addr s = some ⟨(c.getLine ls addr).shared, (c.getLine ls addr).dirty⟩ := if_pos h

/-- The copy of a line depends on the line only. -/
theorem copy_of_getLine {c' : Cache} {a : Addr} (h : c'.getLine ls a = c.getLine ls a) (s : Bool) :
    c'.copy ls a s = c.copy ls a s := by
  rw [copy, copy, inCache, inCache, h]

/-- Changing a line at another index changes no copy. -/
theorem copy_setLine_of_ne {addr a : Addr} (l : CacheLine) (s : Bool) (h : c.lineIndex ls a ≠ c.lineIndex ls addr) :
    (c.setLine ls addr l).copy ls a s = c.copy ls a s :=
  copy_of_getLine ls c (getLine_setLine_of_ne ls c l h) s

/-- The copy at the index of a changed line. -/
theorem copy_setLine_of_eq {addr a : Addr} (l : CacheLine) (s : Bool) (h : c.lineIndex ls a = c.lineIndex ls addr) :
    (c.setLine ls addr l).copy ls a s =
      if l.valid = true ∧ l.tag = ls.getTag a ∧ l.secure = s then some ⟨l.shared, l.dirty⟩ else none := by
  simp only [copy, inCache, getLine_setLine, if_pos h]
  simp [and_assoc]

end Cache

/-- What a snoop leaves of a copy. -/
def AC.after : AC → Copy → Option Copy
  | .readOnce, x | .readClean, x | .readNotSharedDirty, x => some { x with shared := true }
  | .readShared, _ | .cleanShared, _ => some ⟨true, false⟩
  | .readUnique, _ | .cleanInvalid, _ | .makeInvalid, _ => none
  | .dvmMessage, x | .dvmComplete, x => some x

/-- What a snoop reports of a copy's dirty flag. -/
def AC.reportsDirty : AC → Bool
  | .readShared | .readUnique | .cleanInvalid | .cleanShared => true
  | _ => false

/-- What a snoop does to the line it hits. -/
def AC.line : AC → CacheLine → CacheLine
  | .readOnce, l | .readClean, l | .readNotSharedDirty, l => { l with shared := true }
  | .readShared, l | .cleanShared, l => { l with shared := true, dirty := false }
  | .readUnique, l | .cleanInvalid, l | .makeInvalid, l => { l with valid := false }
  | .dvmMessage, l | .dvmComplete, l => l

/-- The handlers that reset the exclusive monitor. -/
def AC.invalidates : AC → Bool
  | .readUnique | .cleanInvalid | .makeInvalid => true
  | _ => false

namespace Cache

variable (c : Cache)

/-- **The lines after a snoop**: only the line that is hit changes, as `AC.line` says. -/
theorem lines_snoopAnswer (ac : AC) (addr : Addr) (secure : Bool) (x : ℕ) :
    (snoopAnswer ls ac addr secure c).1.lines x =
      if c.inCache ls addr secure = true ∧ x = c.lineIndex ls addr then ac.line (c.lines x) else c.lines x := by
  by_cases h : c.inCache ls addr secure = true
  · by_cases hx : x = c.lineIndex ls addr
    · subst hx
      rw [if_pos ⟨h, rfl⟩]
      cases ac <;>
        simp [snoopAnswer, bTransportSnoop, handleReadonce, handleReadshared, handleReadclean,
          handleReadnotshareddirty, handleReadunique, handleCleaninvalid, handleCleanshared, handleMakeinvalid,
          handleSnoop, h, AC.line, monitorReset, lines_setLine, getLine]
    · rw [if_neg fun hh => hx hh.2]
      cases ac <;>
        simp [snoopAnswer, bTransportSnoop, handleReadonce, handleReadshared, handleReadclean,
          handleReadnotshareddirty, handleReadunique, handleCleaninvalid, handleCleanshared, handleMakeinvalid,
          handleSnoop, h, monitorReset, lines_setLine, hx]
  · rw [if_neg fun hh => h hh.1]
    cases ac <;>
      simp [snoopAnswer, bTransportSnoop, handleReadonce, handleReadshared, handleReadclean,
        handleReadnotshareddirty, handleReadunique, handleCleaninvalid, handleCleanshared, handleMakeinvalid,
        handleSnoop, h]

@[simp] theorem snoopAnswer_cacheSz (ac : AC) (addr : Addr) (secure : Bool) :
    (snoopAnswer ls ac addr secure c).1.cacheSz = c.cacheSz := by
  unfold snoopAnswer
  cases ac <;>
    simp only [bTransportSnoop, handleReadonce, handleReadshared, handleReadclean, handleReadnotshareddirty,
      handleReadunique, handleCleaninvalid, handleCleanshared, handleMakeinvalid, handleSnoop] <;>
    split <;> rfl

@[simp] theorem snoopAnswer_lineIndex (ac : AC) (addr : Addr) (secure : Bool) (a : Addr) :
    (snoopAnswer ls ac addr secure c).1.lineIndex ls a = c.lineIndex ls a := by
  rw [lineIndex, lineIndex, getIndex, getIndex, snoopAnswer_cacheSz]

theorem getLine_snoopAnswer (ac : AC) (addr : Addr) (secure : Bool) (a : Addr) :
    (snoopAnswer ls ac addr secure c).1.getLine ls a =
      if c.inCache ls addr secure = true ∧ c.lineIndex ls a = c.lineIndex ls addr then ac.line (c.getLine ls a)
      else c.getLine ls a := by
  rw [getLine, snoopAnswer_lineIndex, lines_snoopAnswer]
  rfl

theorem AC.line_tag (ac : AC) (l : CacheLine) : (ac.line l).tag = l.tag := by cases ac <;> rfl

theorem AC.line_secure (ac : AC) (l : CacheLine) : (ac.line l).secure = l.secure := by cases ac <;> rfl

theorem AC.line_data (ac : AC) (l : CacheLine) : (ac.line l).data = l.data := by cases ac <;> rfl

theorem AC.line_valid (ac : AC) (l : CacheLine) (h : (ac.line l).valid = true) : l.valid = true := by
  cases ac <;> first | exact h | exact absurd h (by simp [AC.line])

/-- A snoop invalidates lines, and does not replace them. -/
theorem snoopAnswer_keeps (ac : AC) (addr : Addr) (secure : Bool) (x : ℕ) :
    ((snoopAnswer ls ac addr secure c).1.lines x).tag = (c.lines x).tag ∧
      ((snoopAnswer ls ac addr secure c).1.lines x).secure = (c.lines x).secure ∧
      ((snoopAnswer ls ac addr secure c).1.lines x).data = (c.lines x).data ∧
      (((snoopAnswer ls ac addr secure c).1.lines x).valid = true → (c.lines x).valid = true) := by
  rw [lines_snoopAnswer]
  split
  · exact ⟨AC.line_tag .., AC.line_secure .., AC.line_data .., AC.line_valid ac _⟩
  · exact ⟨rfl, rfl, rfl, id⟩

theorem inCache_snoopAnswer {ac : AC} {addr : Addr} {secure : Bool} {a : Addr} {sec : Bool}
    (hin : (snoopAnswer ls ac addr secure c).1.inCache ls a sec = true) : c.inCache ls a sec = true := by
  obtain ⟨hv, ht, hs⟩ := (inCache_eq_true ls _).1 hin
  obtain ⟨htk, hsk, -, hvk⟩ := snoopAnswer_keeps ls c ac addr secure (c.lineIndex ls a)
  rw [getLine, snoopAnswer_lineIndex] at hv ht hs
  exact (inCache_eq_true ls c).2 ⟨hvk hv, htk ▸ ht, hsk ▸ hs⟩

/-- **The exclusive monitor after a snoop**: it is reset for the address of the snoop by the handlers
that invalidate, and only if they hit. -/
theorem snoopAnswer_monitor (ac : AC) (addr : Addr) (secure : Bool) :
    (snoopAnswer ls ac addr secure c).1.monitor =
      if c.inCache ls addr secure = true ∧ ac.invalidates = true then c.monitor.filter (· ≠ addr) else c.monitor := by
  by_cases h : c.inCache ls addr secure = true <;> cases ac <;>
    simp [snoopAnswer, bTransportSnoop, handleReadonce, handleReadshared, handleReadclean, handleReadnotshareddirty,
      handleReadunique, handleCleaninvalid, handleCleanshared, handleMakeinvalid, handleSnoop, h, AC.invalidates,
      monitorReset]

/-- **The copies after a snoop**: the copy of the snooped line under the snooped security state
changes as `AC.after` says, and no other. -/
theorem copy_snoopAnswer (ac : AC) (addr : Addr) (secure : Bool) (a : Addr) (s : Bool) :
    (snoopAnswer ls ac addr secure c).1.copy ls a s =
      if ls.getTag a = ls.getTag addr ∧ s = secure then (c.copy ls a s).bind ac.after else c.copy ls a s := by
  by_cases h : c.inCache ls addr secure = true
  · obtain ⟨hv, ht, hs⟩ := (inCache_eq_true ls c).1 h
    by_cases hi : c.lineIndex ls a = c.lineIndex ls addr
    · have hl : c.getLine ls a = c.getLine ls addr := by rw [getLine, getLine, hi]
      have hl' : (snoopAnswer ls ac addr secure c).1.getLine ls a = ac.line (c.getLine ls addr) := by
        rw [getLine_snoopAnswer, if_pos ⟨h, hi⟩, hl]
      by_cases hk : ls.getTag a = ls.getTag addr ∧ s = secure
      · obtain ⟨hta, rfl⟩ := hk
        have hc : c.inCache ls a s = true := (inCache_eq_true ls c).2 ⟨hl ▸ hv, hl ▸ hta ▸ ht, hl ▸ hs⟩
        rw [if_pos ⟨hta, rfl⟩, copy_of_inCache ls c hc, copy, inCache, hl', hl]
        cases ac <;> simp [AC.line, AC.after, hv, ht, hs, hta]
      · -- the line that is hit has another tag or another security state
        have hne : ¬ (ls.getTag addr = ls.getTag a ∧ secure = s) := fun hh => hk ⟨hh.1.symm, hh.2.symm⟩
        have hc : c.copy ls a s = none := by
          rw [copy_eq_none, inCache, hl, hv, ht, hs]
          simpa using hne
        rw [if_neg hk, hc, copy, inCache, hl']
        cases ac <;> simp [AC.line, ht, hs] <;> exact fun _ h₁ h₂ => hne ⟨h₁, h₂⟩
    · have hk : ¬ (ls.getTag a = ls.getTag addr ∧ s = secure) := fun hh => hi (by
        rw [← lineIndex_getTag ls c a, hh.1, lineIndex_getTag])
      have hl : (snoopAnswer ls ac addr secure c).1.getLine ls a = c.getLine ls a := by
        rw [getLine_snoopAnswer, if_neg fun hh => hi hh.2]
      rw [if_neg hk, copy_of_getLine ls c hl]
  · have hl : (snoopAnswer ls ac addr secure c).1.getLine ls a = c.getLine ls a := by
      rw [getLine_snoopAnswer, if_neg fun hh => h hh.1]
    rw [copy_of_getLine ls c hl]
    split
    · rename_i hk
      have hn : c.copy ls a s = none := by
        rw [copy_eq_none, ← inCache_getTag, hk.1, hk.2, inCache_getTag]
        exact Bool.eq_false_iff.2 h
      rw [hn]
      rfl
    · rfl

end Cache

/-! ### Answers -/

/-- A snoop that hits reports a copy. -/
def AC.reportsShared : AC → Bool
  | .readOnce | .readClean | .readNotSharedDirty | .readShared | .cleanShared => true
  | _ => false

/-- The copies of which a snoop sends the data. -/
def AC.transfers : AC → Copy → Bool
  | .readOnce, _ | .readClean, _ | .readNotSharedDirty, _ | .readShared, _ | .readUnique, _ => true
  | .cleanInvalid, x | .cleanShared, x => x.dirty
  | .makeInvalid, _ | .dvmMessage, _ | .dvmComplete, _ => false

/-- **What an answer says** of the copy it was given for. -/
theorem snoopAnswer_genattr (ac : AC) (addr : Addr) (secure : Bool) (c : Cache) :
    let g := (snoopAnswer ls ac addr secure c).2.genattr
    g.shared = ((c.copy ls addr secure).map fun _ => ac.reportsShared).getD false ∧
    g.dirty = ((c.copy ls addr secure).map fun x => ac.reportsDirty && x.dirty).getD false ∧
    g.datatransfer = ((c.copy ls addr secure).map fun x => ac.transfers x).getD false ∧
    g.errorBit = false := by
  by_cases h : c.inCache ls addr secure = true
  · rw [c.copy_of_inCache ls h]
    cases ac <;>
      simp [snoopAnswer, Cache.bTransportSnoop, Cache.handleReadonce, Cache.handleReadshared, Cache.handleReadclean,
        Cache.handleReadnotshareddirty, Cache.handleReadunique, Cache.handleCleaninvalid, Cache.handleCleanshared,
        Cache.handleMakeinvalid, Cache.handleSnoop, h, AC.reportsShared, AC.reportsDirty, AC.transfers,
        Cache.wasUnique] <;>
      split <;> simp_all <;> split <;> simp_all
  · rw [(c.copy_eq_none ls).2 (Bool.eq_false_iff.2 h)]
    cases ac <;>
      simp [snoopAnswer, Cache.bTransportSnoop, Cache.handleReadonce, Cache.handleReadshared, Cache.handleReadclean,
        Cache.handleReadnotshareddirty, Cache.handleReadunique, Cache.handleCleaninvalid, Cache.handleCleanshared,
        Cache.handleMakeinvalid, Cache.handleSnoop, h]

/-- The data an answer carries is the line's. -/
theorem snoopAnswer_data (ac : AC) {addr : Addr} (haddr : ls.getTag addr = addr) (secure : Bool) (c : Cache)
    (h : (snoopAnswer ls ac addr secure c).2.genattr.datatransfer = true) :
    c.inCache ls addr secure = true ∧
      ∀ o < ls.size, (snoopAnswer ls ac addr secure c).2.data o = (c.getLine ls addr).data o := by
  have hin : c.inCache ls addr secure = true := by
    rw [(snoopAnswer_genattr ls ac addr secure c).2.2.1] at h
    by_contra hn
    rw [(c.copy_eq_none ls).2 (Bool.eq_false_iff.2 hn)] at h
    cases h
  have hoff : ls.getLineOffset addr = 0 := by rw [← haddr, LineSize.getLineOffset_getTag]
  refine ⟨hin, fun o ho => ?_⟩
  revert h
  cases ac <;>
    simp [snoopAnswer, Cache.bTransportSnoop, Cache.handleReadonce, Cache.handleReadshared, Cache.handleReadclean,
      Cache.handleReadnotshareddirty, Cache.handleReadunique, Cache.handleCleaninvalid, Cache.handleCleanshared,
      Cache.handleMakeinvalid, Cache.handleSnoop, hin, hoff, ho] <;>
    (intro h hd; rw [if_neg (by simp [hd])] at h; simp [Cache.wasUnique] at h; split at h <;> simp at h)

/-! ### Collecting the answers -/

/-- What identifies a transaction, whatever it has been answered: all but the data, the response and
the flags a snoop sets. -/
def Transaction.request (t : Transaction) : Transaction :=
  { t with
    data := fun _ => 0
    response := .incomplete
    genattr := { t.genattr with shared := false, dirty := false } }

namespace SnoopTransaction

/-- `PortDone` for one answer after the other. -/
def collect (gps : List SnoopGp) (p : Transaction × SnoopTransaction) : Transaction × SnoopTransaction :=
  gps.foldl (fun p gp => portDone ls p.1 p.2 gp) p

@[simp] theorem collect_nil (p : Transaction × SnoopTransaction) : collect ls [] p = p := rfl

theorem collect_cons (gp : SnoopGp) (gps : List SnoopGp) (tr : Transaction) (st : SnoopTransaction) :
    collect ls (gp :: gps) (tr, st) = collect ls gps ((portDone ls tr st gp).1, (portDone ls tr st gp).2) := rfl

variable {ls}
variable {tr : Transaction} {st : SnoopTransaction} {gp : SnoopGp}

theorem portDone_request : (portDone ls tr st gp).1.request = tr.request := by
  simp only [portDone, Transaction.request]
  split <;> split <;> rfl

/-- Requests that agree allow a dirty answer to be passed, or not, alike. -/
theorem allowPassDirty_congr {tr' : Transaction} (h : tr'.request = tr.request) :
    tr'.allowPassDirty = tr.allowPassDirty := by
  have h₁ : tr'.request.allowPassDirty = tr'.allowPassDirty := rfl
  rw [← h₁, h]
  rfl

theorem isReadOnce_congr {tr' : Transaction} (h : tr'.request = tr.request) : tr'.isReadOnce = tr.isReadOnce := by
  have h₁ : tr'.request.isReadOnce = tr'.isReadOnce := rfl
  rw [← h₁, h]
  rfl

/-- A property of what is collected: it holds at the start and is kept by each answer. -/
theorem collect_induction {P : Transaction → SnoopTransaction → Prop} {gps : List SnoopGp} (h₀ : P tr st)
    (hstep : ∀ {t s g}, g ∈ gps → P t s → P (portDone ls t s g).1 (portDone ls t s g).2) :
    P (collect ls gps (tr, st)).1 (collect ls gps (tr, st)).2 := by
  induction gps generalizing tr st with
  | nil => exact h₀
  | cons g gps ih =>
    rw [collect_cons]
    exact ih (hstep List.mem_cons_self h₀) fun hg => hstep (List.mem_cons_of_mem _ hg)

theorem collect_request (gps : List SnoopGp) : (collect ls gps (tr, st)).1.request = tr.request :=
  collect_induction (P := fun t _ => t.request = tr.request) rfl fun _ h => portDone_request.trans h

/-- The line a snoop transaction is about does not change. -/
theorem collect_line (gps : List SnoopGp) :
    (collect ls gps (tr, st)).2.snoop = st.snoop ∧ (collect ls gps (tr, st)).2.addr = st.addr ∧
      (collect ls gps (tr, st)).2.secure = st.secure :=
  collect_induction (P := fun _ s => s.snoop = st.snoop ∧ s.addr = st.addr ∧ s.secure = st.secure) ⟨rfl, rfl, rfl⟩
    fun _ h => h

/-- The transaction is shared when it was, or when some answer says so. -/
theorem collect_shared (gps : List SnoopGp) :
    (collect ls gps (tr, st)).1.genattr.shared = (tr.genattr.shared || gps.any fun g => g.genattr.shared) := by
  induction gps generalizing tr st with
  | nil => simp
  | cons g gps ih =>
    rw [collect_cons, ih, List.any_cons, ← Bool.or_assoc]
    congr 1
    simp only [portDone]
    split <;> split <;> simp_all

/-- The transaction is dirty when it was, or when some answer passes dirty data that it allows. -/
theorem collect_dirty (gps : List SnoopGp) :
    (collect ls gps (tr, st)).1.genattr.dirty =
      (tr.genattr.dirty || gps.any fun g => g.genattr.datatransfer && tr.allowPassDirty && g.genattr.dirty) := by
  induction gps generalizing tr st with
  | nil => simp
  | cons g gps ih =>
    rw [collect_cons, ih, List.any_cons, ← Bool.or_assoc, allowPassDirty_congr portDone_request]
    congr 1
    simp only [portDone]
    split <;> split <;> simp_all

/-- Dirty data goes downstream when some answer carries it and the transaction may not have it. -/
theorem collect_execDsGp (gps : List SnoopGp) (hro : tr.isReadOnce = false) :
    (collect ls gps (tr, st)).2.execDsGp =
      (st.execDsGp || gps.any fun g => g.genattr.datatransfer && !tr.allowPassDirty && g.genattr.dirty) := by
  induction gps generalizing tr st with
  | nil => simp
  | cons g gps ih =>
    rw [collect_cons, ih ((isReadOnce_congr portDone_request).trans hro), List.any_cons, ← Bool.or_assoc,
      allowPassDirty_congr portDone_request]
    congr 1
    simp only [portDone, hro, Bool.and_false]
    split <;> simp_all

/-- Without an error bit in an answer the response is not an error. -/
theorem collect_response (gps : List SnoopGp) (hg : ∀ g ∈ gps, g.genattr.errorBit = false)
    (h₀ : tr.response ≠ .genericError) : (collect ls gps (tr, st)).1.response ≠ .genericError := by
  refine collect_induction (P := fun t _ => t.response ≠ .genericError) h₀ fun {t s g} hm ht => ?_
  simp only [portDone, updateTransResponse, hg g hm, Bool.false_eq_true, if_false, if_neg ht]
  cases s.snoop <;> dsimp only <;> (repeat' split) <;> first | exact ht | exact Response.noConfusion

/-- A read snoop that is not a `ReadOnce` is answered exactly when some answer carries data. -/
theorem collect_response_read (gps : List SnoopGp) (hg : ∀ g ∈ gps, g.genattr.errorBit = false)
    (hs : st.snoop.isReadSnoop = true) (hro : st.snoop ≠ .readOnce) (h₀ : tr.response ≠ .genericError) :
    (collect ls gps (tr, st)).1.response = if gps.any (·.genattr.datatransfer) then .ok else tr.response := by
  induction gps generalizing tr st with
  | nil => simp
  | cons g gps ih =>
    have hone : (collect ls [g] (tr, st)).1.response ≠ .genericError := collect_response [g] (fun x hx => hg x (by simp_all)) h₀
    have hne : (portDone ls tr st g).1.response ≠ .genericError := hone
    have hs' : (portDone ls tr st g).2.snoop.isReadSnoop = true := hs
    rw [collect_cons, ih (fun x hx => hg x (List.mem_cons_of_mem _ hx)) hs' hro hne, List.any_cons]
    have he := hg g List.mem_cons_self
    have hr : (portDone ls tr st g).1.response = if g.genattr.datatransfer then .ok else tr.response := by
      simp only [portDone, updateTransResponse, he, Bool.false_eq_true, if_false, if_neg h₀]
      revert hs hro
      cases st.snoop <;> simp [AC.isReadSnoop]
    rw [hr]
    cases g.genattr.datatransfer <;> simp

/-- Copying between two payloads of the same line copies the line. -/
theorem copyData_line (addr : Addr) (src dst : ℕ → Byte) (n i : ℕ) :
    copyData addr src n addr dst n i = if i < n then src i else dst i := by
  have hr : copyRange addr n addr n = { src := 0, dst := 0, len := n } := by
    simp [copyRange, BitVec.lt_irrefl]
  simp [copyData, hr]

/-- The data of a read is what the answers that carry data agree on, if there is one. -/
theorem collect_data (gps : List SnoopGp) {v : ℕ → Byte} (hs : st.snoop.isReadSnoop = true)
    (haddr : tr.address = st.addr) (hlen : tr.dataLength = ls.size)
    (hv : ∀ g ∈ gps, g.genattr.datatransfer = true → ∀ o < ls.size, g.data o = v o)
    (hd : (∃ g ∈ gps, g.genattr.datatransfer = true) ∨ ∀ o < ls.size, tr.data o = v o) :
    ∀ o < ls.size, (collect ls gps (tr, st)).1.data o = v o := by
  induction gps generalizing tr st with
  | nil =>
    rcases hd with ⟨g, hg, -⟩ | hd
    · cases hg
    · exact hd
  | cons g gps ih =>
    rw [collect_cons]
    refine ih hs haddr hlen (fun x hx => hv x (List.mem_cons_of_mem _ hx)) ?_
    by_cases hg : g.genattr.datatransfer = true
    · refine .inr fun o ho => ?_
      simp only [portDone, hg, hs, Bool.and_self, if_true, haddr, hlen]
      rw [copyData_line, if_pos ho]
      exact hv g List.mem_cons_self hg o ho
    · rcases hd with ⟨x, hx, hxt⟩ | hd
      · rcases List.mem_cons.1 hx with rfl | hx
        · exact absurd hxt hg
        · exact .inl ⟨x, hx, hxt⟩
      · refine .inr fun o ho => ?_
        simp only [portDone, hg, Bool.false_and, Bool.false_eq_true, if_false]
        exact hd o ho

/-- The data of a transaction whose snoop reads nothing stays what it was. -/
theorem collect_data_of_not_read (gps : List SnoopGp) (hs : st.snoop.isReadSnoop = false) :
    (collect ls gps (tr, st)).1.data = tr.data :=
  (collect_induction (P := fun t s => s.snoop.isReadSnoop = false ∧ t.data = tr.data) ⟨hs, rfl⟩ fun {t s g} _ h =>
    ⟨h.1, by simp only [portDone, h.1, Bool.and_false, Bool.false_eq_true, if_false, h.2]⟩).2

/-- What is written downstream is what the dirty answers agree on. -/
theorem collect_dsData (gps : List SnoopGp) {v : ℕ → Byte} (hro : tr.isReadOnce = false)
    (hv : ∀ g ∈ gps, g.genattr.datatransfer = true → g.genattr.dirty = true → ∀ o < ls.size, g.data o = v o)
    (hd : st.execDsGp = true → ∀ o < ls.size, st.dsData o = v o) :
    (collect ls gps (tr, st)).2.execDsGp = true → ∀ o < ls.size, (collect ls gps (tr, st)).2.dsData o = v o := by
  refine (collect_induction
    (P := fun t s => t.isReadOnce = false ∧ (s.execDsGp = true → ∀ o < ls.size, s.dsData o = v o)) ⟨hro, hd⟩
    fun {t s g} hg h => ⟨(isReadOnce_congr portDone_request).trans h.1, ?_⟩).2
  simp only [portDone, h.1, Bool.and_false, Bool.false_eq_true, if_false]
  split
  · rename_i hto
    simp only [Bool.and_eq_true] at hto
    intro _ o ho
    rw [copyData_line, if_pos ho]
    exact hv g hg hto.1.1 hto.2 o ho
  · exact h.2

end SnoopTransaction

/-! ### The whole snoop -/

/-- **The order of the answers does not matter for the caches**: each snooped cache changes by its own
answer, and the transaction collects the answers. -/
theorem processSnoop_eq {order : List (Fin N)} (hnd : order.Nodup) (cs : Fin N → Cache) (tr : Transaction)
    (st : SnoopTransaction) :
    processSnoop ls order cs tr st =
      (fun i => if i ∈ order then (snoopAnswer ls st.snoop st.addr st.secure (cs i)).1 else cs i,
        SnoopTransaction.collect ls (order.map fun i => (snoopAnswer ls st.snoop st.addr st.secure (cs i)).2) (tr, st)) := by
  induction order generalizing cs tr st with
  | nil => simp [processSnoop]
  | cons p order ih =>
    obtain ⟨hp, hnd⟩ := List.nodup_cons.1 hnd
    have hrest := ih hnd (snoopPort ls (cs, tr, st) p).1 (snoopPort ls (cs, tr, st) p).2.1 (snoopPort ls (cs, tr, st) p).2.2
    have hne : ∀ i ∈ order, (snoopPort ls (cs, tr, st) p).1 i = cs i := fun i hi =>
      Function.update_of_ne (fun h : i = p => hp (h ▸ hi)) _ cs
    rw [processSnoop, List.foldl_cons]
    refine hrest.trans (Prod.ext (funext fun i => ?_) ?_)
    · by_cases hi : i ∈ order
      · simp only [hi, List.mem_cons, or_true, if_true, hne i hi]
        rfl
      · by_cases hip : i = p
        · subst hip
          simp only [hp, List.mem_cons, true_or, if_true, if_false]
          exact Function.update_self i _ cs
        · simp only [hi, hip, List.mem_cons, or_self, if_false]
          exact Function.update_of_ne hip _ cs
    · rw [List.map_cons, SnoopTransaction.collect_cons]
      refine congrArg (fun gps => SnoopTransaction.collect ls gps _) (List.map_congr_left fun i hi => ?_)
      rw [hne i hi]
      rfl

end LibSystemCTLM.Ace
