import LibSystemCTLM.Ace.Coherent

/-!
# Exclusive accesses

An exclusive store that is returned with `exclusive_handled` set promises that its master has
loaded the location exclusively before, and that no other master has stored to the line, or
invalidated it, in between (`ExclusiveSound`). The monitor of a cache is a list of byte addresses.
It keeps the promise as long as every address in it stands for a valid line that is still guarded
(`Watched`), and the cache looks after this in the snoop handlers only: these reset the monitor for
the address of the snoop, which is a line's.

The promise is therefore kept by the steps that meet `ExclusiveStep`. The other steps leave an
address in a monitor that no handler will reset: one inside a line that is invalidated, or one whose
line the cache itself evicts. Or they take a line for unique that other caches hold as well, which a
refused exclusive `CleanUnique` does.
-/

namespace LibSystemCTLM.Ace

open Foundation Foundation.Coherence Cache

variable {N : ℕ} {ls : LineSize}

/-! ### What an exclusive store promises -/

/-- The event is a store or an invalidating transaction of another port on the line. -/
def Event.Interferes (ls : LineSize) (port : Fin N) (line : Addr) : Event N → Prop
  | .store i gp pos _ => i ≠ port ∧ ls.getTag (gp.addrAt pos) = line
  | .snoop i ac addr => i ≠ port ∧ ac.invalidates = true ∧ ls.getTag addr = line
  | _ => False

/-- The port has loaded the location exclusively, and no other port has interfered with its line since. -/
def Guarded (ls : LineSize) (port : Fin N) (addr : Addr) (secure : Bool) (trace : List (Event N)) : Prop :=
  ∃ mid gl pos n t, trace = mid ++ .load port gl pos n :: t ∧ gl.isExclusive = true ∧ gl.addrAt pos = addr ∧
    gl.getSecure = secure ∧ ∀ e ∈ mid, ¬ e.Interferes ls port (ls.getTag addr)

/-- The bytes below `pos` that a store has stored to guarded locations. -/
def StoredGuarded (ls : LineSize) (port : Fin N) (trace : List (Event N)) (gp : Payload) (pos : ℕ) : Prop :=
  ∀ b < pos, ∃ gp' p n t, SinceBegin port trace (.store port gp' p n :: t) ∧ gp'.request = gp.request ∧ p ≤ b ∧ b < p + n ∧
    Guarded ls port (gp.addrAt p) gp.getSecure t

/-- **What an exclusive store promises**, on a trace. -/
def ExclusiveSound (ls : LineSize) (trace : List (Event N)) : Prop :=
  ∀ port gp t, (.ret port gp :: t) <:+ trace → gp.write = true → gp.isExclusive = true → gp.hasExokay = true →
    StoredGuarded ls port t gp gp.dataLength

section Promise

variable {port : Fin N} {trace trace' : List (Event N)} {addr : Addr} {sec : Bool} {gp gp' : Payload} {pos : ℕ}

/-- A location stays guarded while no other port interferes. -/
theorem Guarded.append (new : List (Event N)) (h : Guarded ls port addr sec trace)
    (hn : ∀ e ∈ new, ¬ e.Interferes ls port (ls.getTag addr)) : Guarded ls port addr sec (new ++ trace) := by
  obtain ⟨mid, gl, p, n, t, rfl, hx, ha, hs, hm⟩ := h
  refine ⟨new ++ mid, gl, p, n, t, (List.append_assoc ..).symm, hx, ha, hs, fun e he => ?_⟩
  rcases List.mem_append.1 he with he | he
  · exact hn e he
  · exact hm e he

theorem Guarded.cons {e : Event N} (h : Guarded ls port addr sec trace) (he : ¬ e.Interferes ls port (ls.getTag addr)) :
    Guarded ls port addr sec (e :: trace) :=
  Guarded.append [e] h (by simpa using he)

theorem StoredGuarded.mono (h : StoredGuarded ls port trace gp pos) (ht : SinceBegin port trace' trace)
    (hr : gp'.request = gp.request) : StoredGuarded ls port trace' gp' pos := by
  obtain ⟨-, -, -, ha, -, hsec⟩ := request_fields hr
  intro b hb
  obtain ⟨g, p, n, t, hs, hg, hpb, hbn, hgd⟩ := h b hb
  exact ⟨g, p, n, t, ht.trans hs, hg.trans hr.symm, hpb, hbn, by rw [ha, hsec]; exact hgd⟩

/-- A segment more is stored to a guarded location. -/
theorem StoredGuarded.store {n : ℕ} (h : StoredGuarded ls port trace gp pos)
    (hg : Guarded ls port (gp.addrAt pos) gp.getSecure trace) :
    StoredGuarded ls port (.store port gp pos n :: trace) gp (pos + n) := by
  intro b hb
  by_cases hbp : pos ≤ b
  · exact ⟨gp, pos, n, trace, .refl _ _, rfl, hbp, hb, hg⟩
  · obtain ⟨g, p, m, t, hs, hr, hpb, hbn, hgd⟩ := h b (by omega)
    exact ⟨g, p, m, t, hs.cons (by simp), hr, hpb, hbn, hgd⟩

theorem ExclusiveSound.cons (h : ExclusiveSound ls trace) {e : Event N} (he : ∀ port gp, e ≠ .ret port gp) :
    ExclusiveSound ls (e :: trace) := by
  intro port gp t ht
  rcases List.suffix_cons_iff.1 ht with heq | hs
  · exact absurd (List.cons.inj heq).1.symm (he port gp)
  · exact h port gp t hs

theorem ExclusiveSound.ret (h : ExclusiveSound ls trace)
    (hp : gp.write = true → gp.isExclusive = true → gp.hasExokay = true → StoredGuarded ls port trace gp gp.dataLength) :
    ExclusiveSound ls (.ret port gp :: trace) := by
  intro port' g t ht
  rcases List.suffix_cons_iff.1 ht with heq | hs
  · obtain ⟨hev, rfl⟩ := List.cons.inj heq
    obtain ⟨rfl, rfl⟩ := Event.ret.inj hev
    exact hp
  · exact h port' g t hs

end Promise

/-! ### The monitor of a cache -/

/-- A monitored address that stands for a valid line whose location is guarded. -/
structure Watched (ls : LineSize) (port : Fin N) (trace : List (Event N)) (c : Cache) (k : Addr) : Prop where
  valid : (c.getLine ls k).valid = true
  tag : (c.getLine ls k).tag = ls.getTag k
  guarded : Guarded ls port k (c.getLine ls k).secure trace

/-- All monitored addresses do. -/
def MonOk (ls : LineSize) (port : Fin N) (trace : List (Event N)) (c : Cache) : Prop := ∀ k ∈ c.monitor, Watched ls port trace c k

/-- Where the payload from `pos` on comes to the line of a monitored address, it is that line it is for. -/
def Apart (ls : LineSize) (c : Cache) (gp : Payload) (pos : ℕ) : Prop :=
  ∀ b, pos ≤ b → b < gp.dataLength → ∀ k ∈ c.monitor, c.lineIndex ls k = c.lineIndex ls (gp.addrAt b) →
    (c.getLine ls (gp.addrAt b)).tag = ls.getTag (gp.addrAt b) ∧ (c.getLine ls (gp.addrAt b)).secure = gp.getSecure

/-- The lines of an exclusive load have places of their own in the cache. -/
def OwnPlaces (ls : LineSize) (c : Cache) (gp : Payload) : Prop :=
  gp.write = false → gp.isExclusive = true → ∀ b < gp.dataLength, ∀ b' < gp.dataLength,
    c.lineIndex ls (gp.addrAt b) = c.lineIndex ls (gp.addrAt b') → ls.getTag (gp.addrAt b) = ls.getTag (gp.addrAt b')

/-- What a blocked payload knows of the monitor of its cache. -/
structure OpMon (ls : LineSize) (port : Fin N) (trace : List (Event N)) (op : Op) (c : Cache) : Prop where
  inside : op.pos < op.gp.dataLength
  apart : Apart ls c op.gp op.pos
  own : OwnPlaces ls c op.gp
  /-- No monitored address has the place that a fetch is for. -/
  free : op.pending ≠ .cleanUnique → ∀ k ∈ c.monitor, c.lineIndex ls k ≠ c.lineIndex ls op.addr
  /-- A store does not send the transaction that brings an exclusive response. -/
  fetch : op.gp.write = true → op.pending ∉ [.fetch .readShared, .writeclean .readShared, Pending.writeback .readShared]
  noExokay : op.gp.write = true → op.gp.isExclusive = true → op.gp.hasExokay = false
  stored : op.gp.write = true → op.gp.isExclusive = true → StoredGuarded ls port trace op.gp op.pos

/-- A cache that has run on from `c` has kept its own monitor, and has stored to unshared lines of `c` only. -/
structure LocalMon (ls : LineSize) (port : Fin N) (c : Cache) (trace : List (Event N)) (l : Local N) : Prop where
  mon : MonOk ls port l.trace l.cache
  sound : ExclusiveSound ls l.trace
  op : ∀ op, l.op = some op → OpMon ls port l.trace op l.cache
  new : ∃ new, l.trace = new ++ trace ∧ ∀ e ∈ new, (∀ i gp, e ≠ .begin i gp) ∧ ∀ i line, e.Interferes ls i line →
    i ≠ port ∧ ∃ x, (c.lines x).valid = true ∧ (c.lines x).shared = false ∧ (c.lines x).tag = line

/-- The cache has dropped monitored addresses, and kept the lines of the others where they were. -/
structure KeepsMon (ls : LineSize) (c c' : Cache) : Prop where
  cacheSz : c'.cacheSz = c.cacheSz
  sub : ∀ k ∈ c'.monitor, k ∈ c.monitor
  line : ∀ k ∈ c'.monitor, ((c.getLine ls k).valid = true → (c'.getLine ls k).valid = true) ∧
    (c'.getLine ls k).tag = (c.getLine ls k).tag ∧ (c'.getLine ls k).secure = (c.getLine ls k).secure

namespace KeepsMon

variable {c c' c'' : Cache}

theorem lineIndex (h : KeepsMon ls c c') (a : Addr) : c'.lineIndex ls a = c.lineIndex ls a := by
  rw [Cache.lineIndex, Cache.lineIndex, getIndex, getIndex, h.cacheSz]

theorem of_lines (hs : c'.cacheSz = c.cacheSz) (hl : c'.lines = c.lines) (hm : ∀ k ∈ c'.monitor, k ∈ c.monitor) :
    KeepsMon ls c c' := by
  refine ⟨hs, hm, fun k _ => ?_⟩
  have hk : c'.getLine ls k = c.getLine ls k := by rw [getLine, getLine, hl, Cache.lineIndex, Cache.lineIndex, getIndex, getIndex, hs]
  rw [hk]
  exact ⟨id, rfl, rfl⟩

theorem refl (ls : LineSize) (c : Cache) : KeepsMon ls c c := .of_lines rfl rfl fun _ h => h

theorem trans (h : KeepsMon ls c c') (h' : KeepsMon ls c' c'') : KeepsMon ls c c'' := by
  refine ⟨h'.cacheSz.trans h.cacheSz, fun k hk => h.sub k (h'.sub k hk), fun k hk => ?_⟩
  obtain ⟨hv, ht, hs⟩ := h.line k (h'.sub k hk)
  obtain ⟨hv', ht', hs'⟩ := h'.line k hk
  exact ⟨fun h => hv' (hv h), ht'.trans ht, hs'.trans hs⟩

/-- A line is changed that is no monitored address's, or keeps its place. -/
theorem setLine {addr : Addr} {l : CacheLine} (h : ∀ k ∈ c.monitor, c.lineIndex ls k = c.lineIndex ls addr →
    ((c.getLine ls k).valid = true → l.valid = true) ∧ l.tag = (c.getLine ls k).tag ∧ l.secure = (c.getLine ls k).secure) :
    KeepsMon ls c (c.setLine ls addr l) := by
  refine ⟨rfl, fun _ hk => hk, fun k hk => ?_⟩
  rw [getLine_setLine]
  split
  · rename_i hi
    exact h k hk hi
  · exact ⟨id, rfl, rfl⟩

theorem monitorReset (ls : LineSize) (c : Cache) (addr : Addr) : KeepsMon ls c (c.monitorReset addr) :=
  .of_lines rfl rfl fun _ hk => (List.mem_filter.1 hk).1

theorem writeLine (ls : LineSize) (c : Cache) (gp : Payload) (pos : ℕ) (dirty : Bool) : KeepsMon ls c (c.writeLine ls gp pos dirty) :=
  .setLine fun k _ hi => by
    have hl : c.getLine ls k = c.getLine ls (gp.addrAt pos) := by rw [getLine, getLine, hi]
    rw [hl]
    exact ⟨id, rfl, rfl⟩

/-- A fetch is for a place that no monitored address has. -/
theorem startFetch {addr : Addr} (f : Fetch) (h : ∀ k ∈ c.monitor, c.lineIndex ls k ≠ c.lineIndex ls addr) :
    KeepsMon ls c (c.startFetch ls addr f).1 := by
  simp only [Cache.startFetch]
  split
  · split
    · exact .of_lines rfl rfl fun _ hk => hk
    · exact .setLine fun k hk hi => absurd hi (h k hk)
  · exact .refl ls c

theorem fillLine {addr : Addr} {f : Fetch} {tr : Transaction} (h : ∀ k ∈ c.monitor, c.lineIndex ls k ≠ c.lineIndex ls addr) :
    KeepsMon ls c (c.fillLine ls addr f tr) := by
  unfold Cache.fillLine
  split <;> exact .setLine fun k hk hi => absurd hi (h k hk)

theorem afterCleanUnique (c : Cache) {addr : Addr} {tr : Transaction} (hok : tr.response = .ok) :
    KeepsMon ls c (c.afterCleanUnique ls addr tr) := by
  have hs : (c.afterCleanUnique ls addr tr).cacheSz = c.cacheSz ∧ (c.afterCleanUnique ls addr tr).monitor = c.monitor := by
    rw [Cache.afterCleanUnique, if_pos hok]
    split <;> exact ⟨rfl, rfl⟩
  refine ⟨hs.1, fun k hk => hs.2 ▸ hk, fun k _ => ?_⟩
  have hi : (c.afterCleanUnique ls addr tr).lineIndex ls k = c.lineIndex ls k := by
    rw [Cache.lineIndex, Cache.lineIndex, getIndex, getIndex, hs.1]
  rw [getLine, getLine, hi, lines_afterCleanUnique c hok]
  split <;> exact ⟨id, rfl, rfl⟩

/-- A monitored address that a snoop leaves is not the address it resets. -/
theorem mem_snoopAnswer {c : Cache} {ac : AC} {addr : Addr} {secure : Bool} {k : Addr}
    (hk : k ∈ (Ace.snoopAnswer ls ac addr secure c).1.monitor) :
    k ∈ c.monitor ∧ ¬ (c.inCache ls addr secure = true ∧ ac.invalidates = true ∧ k = addr) := by
  rw [snoopAnswer_monitor] at hk
  split at hk
  · obtain ⟨hk, hne⟩ := List.mem_filter.1 hk
    exact ⟨hk, fun hh => of_decide_eq_true hne hh.2.2⟩
  · rename_i hn
    exact ⟨hk, fun hh => hn ⟨hh.1, hh.2.1⟩⟩

/-- A snoop keeps the monitor, if the monitored addresses on a line it invalidates are those it resets. -/
theorem snoopAnswer (c : Cache) (ac : AC) (addr : Addr) (secure : Bool) (h : ac.invalidates = true →
    ∀ k ∈ c.monitor, c.inCache ls addr secure = true → c.lineIndex ls k = c.lineIndex ls addr → k = addr) :
    KeepsMon ls c (snoopAnswer ls ac addr secure c).1 := by
  refine ⟨snoopAnswer_cacheSz .., fun k hk => (mem_snoopAnswer hk).1, fun k hk => ?_⟩
  obtain ⟨hk, hno⟩ := mem_snoopAnswer hk
  obtain ⟨ht, hs, -⟩ := snoopAnswer_keeps ls c ac addr secure (c.lineIndex ls k)
  rw [getLine, getLine, snoopAnswer_lineIndex]
  refine ⟨fun hv => ?_, ht, hs⟩
  rw [lines_snoopAnswer]
  split
  · rename_i hhit
    have hni : ac.invalidates ≠ true := fun hi => hno ⟨hhit.1, hi, h hi k hk hhit.1 hhit.2⟩
    revert hni
    cases ac <;> simp [AC.invalidates, AC.line, show (c.lines (c.lineIndex ls k)).valid = true from hv]
  · exact hv

end KeepsMon

section Kept

variable {port : Fin N} {trace trace' : List (Event N)} {c c' : Cache} {gp gp' : Payload} {pos pos' : ℕ}

theorem MonOk.keep (h : MonOk ls port trace c) (hk : KeepsMon ls c c')
    (hg : ∀ k ∈ c'.monitor, ∀ sec, Guarded ls port k sec trace → Guarded ls port k sec trace') : MonOk ls port trace' c' := by
  intro k hkm
  obtain ⟨hv, ht, hgd⟩ := h k (hk.sub k hkm)
  obtain ⟨hv', ht', hs'⟩ := hk.line k hkm
  exact ⟨hv' hv, ht'.trans ht, by rw [hs']; exact hg k hkm _ hgd⟩

theorem Apart.keep (h : Apart ls c gp pos) (hk : KeepsMon ls c c') (hr : gp'.request = gp.request) (hp : pos ≤ pos') :
    Apart ls c' gp' pos' := by
  obtain ⟨-, hlen, -, ha, -, hsec⟩ := request_fields hr
  intro b hb hbl k hkm hi
  rw [hlen] at hbl
  rw [hk.lineIndex, hk.lineIndex, ha] at hi
  obtain ⟨ht, hs⟩ := h b (by omega) hbl k (hk.sub k hkm) hi
  obtain ⟨-, ht', hs'⟩ := hk.line k hkm
  have hl : c.getLine ls (gp.addrAt b) = c.getLine ls k := by rw [getLine, getLine, hi]
  have hl' : c'.getLine ls (gp.addrAt b) = c'.getLine ls k := by rw [getLine, getLine, hk.lineIndex, hk.lineIndex, hi]
  rw [hl] at ht hs
  rw [ha, hsec, hl', ht', hs']
  exact ⟨ht, hs⟩

theorem OwnPlaces.keep (h : OwnPlaces ls c gp) (hk : KeepsMon ls c c') (hr : gp'.request = gp.request) : OwnPlaces ls c' gp' := by
  obtain ⟨hw, hlen, -, ha, hx, -⟩ := request_fields hr
  intro hwr hex b hb b' hb' hi
  rw [hk.lineIndex, hk.lineIndex, ha] at hi
  rw [ha]
  exact h (hw ▸ hwr) (hx ▸ hex) b (hlen ▸ hb) b' (hlen ▸ hb') hi

/-- A miss is for a place that no monitored address has. -/
theorem Apart.free (h : Apart ls c gp pos) (hm : MonOk ls port trace c) (hlt : pos < gp.dataLength)
    (hmiss : c.inCache ls (gp.addrAt pos) gp.getSecure ≠ true) : ∀ k ∈ c.monitor, c.lineIndex ls k ≠ c.lineIndex ls (gp.addrAt pos) := by
  intro k hk hi
  obtain ⟨ht, hs⟩ := h pos le_rfl hlt k hk hi
  have hv := (hm k hk).valid
  rw [getLine, hi] at hv
  exact hmiss ((inCache_eq_true ls c).2 ⟨hv, ht, hs⟩)

end Kept

/-! ### Loops -/

section Loops

variable {port : Fin N} {c c' : Cache} {trace : List (Event N)} {gp : Payload} {pos : ℕ}

/-- The cache and the trace have changed a little before it ran on. -/
theorem LocalMon.cons {l : Local N} {e : Event N} (h : LocalMon ls port c' (e :: trace) l) (hl : LocalTo c c')
    (hb : ∀ i gp, e ≠ .begin i gp) (he : ∀ i line, e.Interferes ls i line → i ≠ port ∧ ∃ x, (c.lines x).valid = true ∧
      (c.lines x).shared = false ∧ (c.lines x).tag = line) : LocalMon ls port c trace l := by
  refine ⟨h.mon, h.sound, h.op, ?_⟩
  obtain ⟨new, ht, hn⟩ := h.new
  refine ⟨new ++ [e], by rw [ht, List.append_assoc]; rfl, fun e' he' => ?_⟩
  rcases List.mem_append.1 he' with he' | he'
  · refine ⟨(hn e' he').1, fun i line hi => ?_⟩
    obtain ⟨hip, x, hv, hs, htag⟩ := (hn e' he').2 i line hi
    obtain ⟨hv', ht', -, hs', -⟩ := hl.lines x hv
    exact ⟨hip, x, hv', hs' ▸ hs, ht' ▸ htag⟩
  · obtain rfl := List.mem_singleton.1 he'
    exact ⟨hb, he⟩

/-- A cache that blocks, or that has returned its payload. -/
theorem LocalMon.of_new {l : Local N} (hm : MonOk ls port l.trace l.cache) (hs : ExclusiveSound ls l.trace)
    (hop : ∀ op, l.op = some op → OpMon ls port l.trace op l.cache)
    (ht : l.trace = trace ∨ ∃ gp, l.trace = .ret port gp :: trace) : LocalMon ls port c trace l := by
  refine ⟨hm, hs, hop, ?_⟩
  rcases ht with ht | ⟨g, ht⟩
  · exact ⟨[], ht, by simp⟩
  · exact ⟨[.ret port g], ht, by simp [Event.Interferes]⟩

/-- **The loop of a load** keeps the monitor: it evicts no monitored line. -/
theorem loadLoop_mon (fuel : ℕ) (ef : Bool) (hw : gp.write = false) (hm : MonOk ls port trace c) (ha : Apart ls c gp pos)
    (ho : OwnPlaces ls c gp) (hs : ExclusiveSound ls trace) :
    LocalMon ls port c trace (loadLoop ls port fuel c trace gp pos ef) := by
  have hret : ∀ {c : Cache} {trace : List (Event N)} {gp : Payload}, gp.write = false → MonOk ls port trace c →
      ExclusiveSound ls trace → LocalMon ls port c trace (returnLoad port c trace gp ef) := by
    intro c trace gp hw hm hs
    have hwr : (if (gp.isExclusive && !ef) = true then gp.setExokay else gp).write = false := by split <;> exact hw
    refine .of_new (hm.keep (.refl ls c) fun _ _ _ h => h.cons id) (hs.ret fun ht => ?_) (fun op hop => by cases hop) (.inr ⟨_, rfl⟩)
    exact absurd ht (by simp only [hwr, Bool.false_eq_true, not_false_eq_true])
  induction fuel generalizing c trace gp pos with
  | zero => exact hret hw hm hs
  | succ fuel ih =>
    simp only [loadLoop]
    split
    · rename_i hlt
      split
      · -- a hit: nothing changes but the payload
        have hreq := readLine_request ls c pos hw
        refine LocalMon.cons (ih hw (hm.keep (.refl ls c) fun _ _ _ h => h.cons id)
          (ha.keep (.refl ls c) hreq (Nat.le_add_right _ _)) (ho.keep (.refl ls c) hreq) (hs.cons (by simp))) (.refl c)
          (by simp) fun i line hi => hi.elim
      · rename_i hmiss
        have hfree := ha.free hm hlt hmiss
        have hk : ∀ f, KeepsMon ls c ((if gp.isExclusive then c else c.getToggle).startFetch ls (gp.addrAt pos) f).1 := by
          intro f
          split
          · exact .startFetch f hfree
          · have htoggle : KeepsMon ls c c.getToggle := .of_lines rfl rfl fun _ h => h
            exact htoggle.trans (.startFetch f hfree)
        refine .of_new (hm.keep (hk _) fun _ _ _ h => h) hs (fun op hop => ?_) (.inl rfl)
        obtain rfl := Option.some.inj hop
        refine ⟨hlt, ha.keep (hk _) rfl le_rfl, ho.keep (hk _) rfl, fun _ k hkm => ?_, fun ht => ?_, fun ht => ?_, fun ht => ?_⟩
        · rw [(hk _).lineIndex, (hk _).lineIndex]
          exact hfree k ((hk _).sub k hkm)
        all_goals
          rw [hw] at ht
          cases ht
    · exact hret hw hm hs

/-- **The loop of a store** keeps the monitor, and an exclusive store writes guarded locations only. -/
theorem storeLoop_mon (fuel : ℕ) (hw : gp.write = true) (hx : gp.isExclusive = true → gp.hasExokay = false)
    (hm : MonOk ls port trace c) (ha : Apart ls c gp pos) (hst : gp.isExclusive = true → StoredGuarded ls port trace gp pos)
    (hs : ExclusiveSound ls trace) : LocalMon ls port c trace (storeLoop ls port fuel c trace gp pos) := by
  have hret : ∀ {c : Cache} {trace : List (Event N)} {pos : ℕ}, MonOk ls port trace c → ExclusiveSound ls trace →
      (gp.isExclusive = true → StoredGuarded ls port trace gp pos) →
      LocalMon ls port c trace (returnStore port c trace gp pos) := by
    intro c trace pos hm hs hst
    refine .of_new (hm.keep (.refl ls c) fun _ _ _ h => h.cons id) (hs.ret fun _ hex hok => ?_) (fun op hop => by cases hop)
      (.inr ⟨_, rfl⟩)
    -- the response is set at the end of the payload only
    have hexg : gp.isExclusive = true := by
      revert hex
      split
      · exact fun h => (gp.setExclusiveHandled_isExclusive true).symm.trans h
      · exact id
    have hend : pos = gp.dataLength := by
      by_contra hne
      rw [if_neg (by simp [hne])] at hok
      exact absurd (hx hexg) (by rw [show gp.hasExokay = true from hok]; exact Bool.noConfusion)
    rw [if_pos (by simp [hexg, hend])]
    exact (hend ▸ hst hexg).mono (.refl _ _) (by simp)
  induction fuel generalizing c trace pos with
  | zero => exact hret hm hs hst
  | succ fuel ih =>
    simp only [storeLoop]
    split
    · rename_i hlt
      split
      · exact hret hm hs hst
      · rename_i hmon
        split
        · rename_i hin
          split
          · rename_i hu
            -- a hit on an unshared line
            obtain ⟨hv, htag, hsec⟩ := (inCache_eq_true ls c).1 hin
            have hsh : (c.getLine ls (gp.addrAt pos)).shared = false := by simpa [isUnique] using hu
            have hk : KeepsMon ls c (if gp.isExclusive = true then (c.writeLine ls gp pos true).monitorReset (gp.addrAt pos)
                else c.writeLine ls gp pos true) := by
              split
              · exact (KeepsMon.writeLine ls c gp pos true).trans (.monitorReset ls _ _)
              · exact .writeLine ls c gp pos true
            have hl : LocalTo c (if gp.isExclusive = true then (c.writeLine ls gp pos true).monitorReset (gp.addrAt pos)
                else c.writeLine ls gp pos true) := by
              split
              · exact (localTo_writeLine ls c hu).trans (localTo_monitorReset _ _)
              · exact localTo_writeLine ls c hu
            have hni : ∀ line, ¬ (Event.store port gp pos (toWrite ls gp pos) : Event N).Interferes ls port line :=
              fun line hi => hi.1 rfl
            refine LocalMon.cons (ih (hm.keep hk fun _ _ _ h => h.cons (hni _)) (ha.keep hk rfl (Nat.le_add_right _ _))
              (fun hex => (hst hex).store ?_) (hs.cons (by simp))) hl (by simp) fun i line hi => ⟨Ne.symm hi.1, ?_⟩
            · rw [← hsec]
              refine (hm (gp.addrAt pos) ?_).guarded
              simpa [hex, monitorIsSet] using hmon
            · exact ⟨c.lineIndex ls (gp.addrAt pos), hv, hsh, htag.trans hi.2⟩
          · -- a hit on a shared line
            refine .of_new hm hs (fun op hop => ?_) (.inl rfl)
            obtain rfl := Option.some.inj hop
            exact ⟨hlt, ha, fun hf => absurd (hw.symm.trans hf) (by simp), fun hne => absurd rfl hne,
              fun _ => by simp, fun _ => hx, fun _ => hst⟩
        · rename_i hmiss
          have hfree := ha.free hm hlt hmiss
          have hk : ∀ f, KeepsMon ls c (c.startFetch ls (gp.addrAt pos) f).1 := fun f => .startFetch f hfree
          refine .of_new (hm.keep (hk _) fun _ _ _ h => h) hs (fun op hop => ?_) (.inl rfl)
          obtain rfl := Option.some.inj hop
          refine ⟨hlt, ha.keep (hk _) rfl le_rfl, fun hf => absurd (hw.symm.trans hf) (by simp), fun _ k hkm => ?_, fun _ => ?_,
            fun _ => hx, fun _ => hst⟩
          · rw [(hk _).lineIndex, (hk _).lineIndex]
            exact hfree k ((hk _).sub k hkm)
          · obtain ⟨-, hmem, -⟩ := startFetch_slot ls c (gp.addrAt pos)
              (if toWrite ls gp pos = ls.size then .makeUnique else .readUnique)
            revert hmem
            generalize (c.startFetch ls (gp.addrAt pos) _).2 = p
            split <;> simp only [List.mem_cons, List.not_mem_nil, or_false] <;> rintro (rfl | rfl | rfl) <;> simp
    · exact hret hm hs hst

theorem runLoop_mon (ef : Bool) (hx : gp.write = true → gp.isExclusive = true → gp.hasExokay = false)
    (hm : MonOk ls port trace c) (ha : Apart ls c gp pos) (ho : OwnPlaces ls c gp)
    (hst : gp.write = true → gp.isExclusive = true → StoredGuarded ls port trace gp pos) (hs : ExclusiveSound ls trace) :
    LocalMon ls port c trace (runLoop ls port c trace gp pos ef) := by
  unfold runLoop
  split
  · rename_i hw
    exact storeLoop_mon _ hw (hx hw) hm ha (hst hw) hs
  · rename_i hw
    exact loadLoop_mon _ ef (Bool.eq_false_iff.2 hw) hm ha ho hs

end Loops

/-! ### Running on after a transaction -/

section Resume

variable {port : Fin N} {c : Cache} {trace : List (Event N)} {op : Op} {f : Fetch} {tr : Transaction}

theorem mem_monitorSet {c : Cache} {a k : Addr} (h : k ∈ (c.monitorSet a).monitor) : k = a ∨ k ∈ c.monitor := by
  unfold monitorSet at h
  split at h
  · exact .inr h
  · rcases List.mem_append.1 h with h | h
    · exact .inr h
    · exact .inl (List.mem_singleton.1 h)

@[simp] theorem clearExokay_hasExokay (gp : Payload) : gp.clearExokay.hasExokay = false := by
  cases h : gp.attr <;> simp [Payload.clearExokay, Payload.setExclusiveHandled, Payload.hasExokay, h]

@[simp] theorem getLine_monitorSet (c : Cache) (a b : Addr) : (c.monitorSet a).getLine ls b = c.getLine ls b := by
  unfold monitorSet
  split <;> rfl

@[simp] theorem lineIndex_monitorSet (c : Cache) (a b : Addr) : (c.monitorSet a).lineIndex ls b = c.lineIndex ls b := by
  unfold monitorSet
  split <;> rfl

theorem runLoop_load_hit {gp : Payload} {pos : ℕ} {ef : Bool} (hw : gp.write = false) (hlt : pos < gp.dataLength)
    (hin : c.inCache ls (gp.addrAt pos) gp.getSecure = true) :
    runLoop ls port c trace gp pos ef = loadLoop ls port (gp.dataLength - pos - 1) c
      (.load port (c.readLine ls gp pos) pos (toWrite ls gp pos) :: trace) (c.readLine ls gp pos) (pos + toWrite ls gp pos) ef := by
  have hfuel : gp.dataLength - pos = (gp.dataLength - pos - 1) + 1 := by omega
  rw [runLoop, if_neg (by simp [hw]), hfuel, loadLoop, if_pos hlt, if_pos hin]
  rfl

theorem getLine_fillLine (ls : LineSize) (c : Cache) (addr : Addr) (f : Fetch) (hok : tr.response = .ok) :
    ((c.fillLine ls addr f tr).getLine ls addr).valid = true ∧ ((c.fillLine ls addr f tr).getLine ls addr).tag = ls.getTag addr ∧
      ((c.fillLine ls addr f tr).getLine ls addr).secure = tr.genattr.secure := by
  rw [getLine, lineIndex_fillLine, lines_fillLine c hok, if_pos rfl]
  exact ⟨rfl, rfl, rfl⟩

/-- After the fetch of an exclusive load its location is loaded, and its address is monitored. -/
theorem exclusiveLoad_mon {gp : Payload} {pos : ℕ} {ef : Bool} {addr : Addr} (haddr : addr = gp.addrAt pos) (hw : gp.write = false)
    (hx : gp.isExclusive = true) (hlt : pos < gp.dataLength) (hv : (c.getLine ls addr).valid = true)
    (ht : (c.getLine ls addr).tag = ls.getTag addr) (hsec : (c.getLine ls addr).secure = gp.getSecure)
    (hm : MonOk ls port trace c) (ha : Apart ls c gp pos) (ho : OwnPlaces ls c gp) (hs : ExclusiveSound ls trace) :
    LocalMon ls port c trace (runLoop ls port (c.monitorSet addr) trace gp pos ef) := by
  subst haddr
  have hin : (c.monitorSet (gp.addrAt pos)).inCache ls (gp.addrAt pos) gp.getSecure = true := by
    rw [inCache_eq_true, getLine_monitorSet]
    exact ⟨hv, ht, hsec⟩
  have hreq := readLine_request ls (c.monitorSet (gp.addrAt pos)) pos hw
  obtain ⟨hw', hlen, -, hadd, hx', hsec'⟩ := request_fields hreq
  rw [runLoop_load_hit hw hlt hin]
  refine LocalMon.cons (loadLoop_mon _ ef (hw'.trans hw) (fun k hk => ?_) (fun b hb hbl k hk hi => ?_) (fun hwr hex b hb b' hb' hi => ?_)
    (hs.cons (by simp))) (localTo_monitorSet c _) (by simp) fun i line hi => hi.elim
  · rcases mem_monitorSet hk with rfl | hk
    · refine ⟨by rw [getLine_monitorSet]; exact hv, by rw [getLine_monitorSet]; exact ht, [], _, pos, _, trace, rfl, hx'.trans hx, ?_⟩
      rw [getLine_monitorSet, hsec', hadd]
      exact ⟨rfl, hsec.symm, by simp⟩
    · obtain ⟨hkv, hkt, hkg⟩ := hm k hk
      exact ⟨by rw [getLine_monitorSet]; exact hkv, by rw [getLine_monitorSet]; exact hkt,
        by rw [getLine_monitorSet]; exact hkg.cons id⟩
  · rw [hadd, hlen] at *
    rw [getLine_monitorSet, hsec']
    rw [lineIndex_monitorSet, lineIndex_monitorSet] at hi
    rcases mem_monitorSet hk with rfl | hk
    · -- the line just loaded: the load itself does not come to another line at its place
      have hl : c.getLine ls (gp.addrAt b) = c.getLine ls (gp.addrAt pos) := by rw [getLine, getLine, hi]
      rw [hl]
      exact ⟨ht.trans (ho hw hx pos hlt b hbl hi), hsec⟩
    · exact ha b (by omega) hbl k hk hi
  · rw [hadd, hlen] at *
    rw [lineIndex_monitorSet, lineIndex_monitorSet] at hi
    exact ho hw hx b hb b' hb' hi

/-- **After a fetch.** -/
theorem resumeFetch_mon (h : OpMon ls port trace op c) (hpend : op.pending = .fetch f) (hok : tr.response = .ok)
    (hsec : tr.genattr.secure = op.gp.getSecure) (hm : MonOk ls port trace c) (hs : ExclusiveSound ls trace) :
    LocalMon ls port (c.fillLine ls op.addr f tr) trace (resumeFetch ls port c trace op f tr) := by
  have hk : KeepsMon ls c (c.fillLine ls op.addr f tr) := .fillLine (h.free (by simp [hpend]))
  have hreq := fetched_request op f tr
  have hmf := hm.keep hk fun _ _ _ h => h
  obtain ⟨hwr, -, -, -, hxr, -⟩ := request_fields hreq
  unfold resumeFetch
  dsimp only
  split
  · rename_i hxl
    simp only [Bool.and_eq_true, Bool.not_eq_true'] at hxl
    have hreq' := ((op.fetched f tr).clearExokay_request).trans hreq
    obtain ⟨hw, hlen, -, ha, hx, hse⟩ := request_fields hreq'
    obtain ⟨hv, ht, hls⟩ := getLine_fillLine ls c op.addr f hok
    exact exclusiveLoad_mon (by rw [ha]; rfl) (hw.trans (hwr ▸ hxl.2)) (hx.trans (hxr ▸ hxl.1)) (hlen ▸ h.inside) hv ht
      (hls.trans (hsec.trans hse.symm)) hmf (h.apart.keep hk hreq' le_rfl) (h.own.keep hk hreq') hs
  · refine runLoop_mon _ (fun hw hx => ?_) hmf (h.apart.keep hk hreq le_rfl) (h.own.keep hk hreq)
      (fun hw hx => (h.stored (hwr ▸ hw) (hxr ▸ hx)).mono (.refl _ _) hreq) hs
    have hne : f ≠ .readShared := by
      rintro rfl
      exact h.fetch (hwr ▸ hw) (by simp [hpend])
    rw [Op.fetched, if_neg hne]
    exact h.noExokay (hwr ▸ hw) (hxr ▸ hx)

/-- **After a `CleanUnique`.** -/
theorem resumeCleanUnique_mon (h : OpMon ls port trace op c) (hok : tr.response = .ok) (hm : MonOk ls port trace c)
    (hs : ExclusiveSound ls trace) :
    LocalMon ls port (c.afterCleanUnique ls op.addr tr) trace (resumeCleanUnique ls port c trace op tr) := by
  have hk : KeepsMon ls c (c.afterCleanUnique ls op.addr tr) := .afterCleanUnique c hok
  have hmc := hm.keep hk fun _ _ _ h => h
  generalize hv : ((c.afterCleanUnique ls op.addr tr).getLine ls op.addr).valid = valid
  have hreq := cleaned_request op valid tr
  obtain ⟨hw, hlen, -, -, hx, -⟩ := request_fields hreq
  simp only [resumeCleanUnique, hv]
  split
  · split
    · have hreq' := ((op.cleaned valid tr).clearExokay_request).trans hreq
      obtain ⟨hw', -, -, -, hx', -⟩ := request_fields hreq'
      exact runLoop_mon _ (fun _ _ => clearExokay_hasExokay _) hmc (h.apart.keep hk hreq' le_rfl) (h.own.keep hk hreq')
        (fun hwr hex => (h.stored (hw' ▸ hwr) (hx' ▸ hex)).mono (.refl _ _) hreq') hs
    · -- the exclusive store fails
      rename_i hno
      refine .of_new (hmc.keep (.monitorReset ls _ _) fun _ _ _ h => h.cons id) (hs.ret fun _ _ hex => ?_) (fun op hop => by cases hop)
        (.inr ⟨_, rfl⟩)
      have hne : op.pos ≠ (op.cleaned valid tr).dataLength := by
        rw [hlen]
        exact Nat.ne_of_lt h.inside
      rw [if_neg (by simp [hne])] at hex
      exact absurd hex hno
  · rename_i hnx
    refine runLoop_mon _ (fun _ hex => absurd hex hnx) hmc (h.apart.keep hk hreq le_rfl) (h.own.keep hk hreq)
      (fun _ hex => absurd hex hnx) hs

end Resume

/-! ### The invariant -/

/-- The condition on a step.

A payload is sent: an exclusive store comes without an exclusive response; where the payload comes to
the place of a monitored line, it hits that line; and an exclusive load has a place for each of its lines.

A transaction is carried out: an exclusive `CleanUnique` is not refused; the line is held under one
security state; and no other cache monitors an address inside a line that the snoop invalidates. -/
def Sys.ExclusiveStep (ls : LineSize) (s : Sys N) : Action N → Prop
  | .begin port gp =>
    (gp.write = true → gp.isExclusive = true → gp.hasExokay = false) ∧
    (∀ b < gp.dataLength, ∀ k ∈ (s.caches port).monitor, (s.caches port).lineIndex ls k = (s.caches port).lineIndex ls (gp.addrAt b) →
      (s.caches port).inCache ls (gp.addrAt b) gp.getSecure = true) ∧
    OwnPlaces ls (s.caches port) gp
  | .exec port _ => ∀ op, s.ops port = some op →
    (op.pending = .cleanUnique → op.gp.isExclusive = true → s.exmon.isSet port = true) ∧
    (op.pending.writeOngoing = false → ∀ i ≠ port, ∀ x, ((s.caches i).lines x).valid = true →
      ((s.caches i).lines x).tag = ls.getTag op.addr → ((s.caches i).lines x).secure = op.gp.getSecure) ∧
    (op.pending ∈ [.fetch .readUnique, .fetch .makeUnique, .cleanUnique] → ∀ i ≠ port, ∀ k ∈ (s.caches i).monitor,
      ls.getTag k = ls.getTag op.addr → k = ls.getTag op.addr)
  | .releaseLock => True

theorem Sys.ExclusiveStep.cleanUniqueProceeds {s : Sys N} {a : Action N} (h : s.ExclusiveStep ls a) : s.CleanUniqueProceeds a := by
  cases a with
  | exec port order => exact fun op hop => (h op hop).1
  | begin | releaseLock => trivial

/-- The invariant of runs that keep the promise. -/
structure ExInv (ls : LineSize) (s : Sys N) : Prop where
  own : OwnInv ls s
  oneState : OneState s.caches
  mon : ∀ i, MonOk ls i s.trace (s.caches i)
  ops : ∀ i op, s.ops i = some op → OpMon ls i s.trace op (s.caches i)
  sound : ExclusiveSound ls s.trace

section Step

variable {s s' : Sys N} {port : Fin N}

theorem OpMon.keep {trace trace' : List (Event N)} {op : Op} {c c' : Cache} (h : OpMon ls port trace op c) (hk : KeepsMon ls c c')
    (ht : SinceBegin port trace' trace) : OpMon ls port trace' op c' where
  inside := h.inside
  apart := h.apart.keep hk rfl le_rfl
  own := h.own.keep hk rfl
  free hp k hkm := by
    rw [hk.lineIndex, hk.lineIndex]
    exact h.free hp k (hk.sub k hkm)
  fetch := h.fetch
  noExokay := h.noExokay
  stored hw hx := (h.stored hw hx).mono ht rfl

/-- **What a monitored address of another cache means**: nobody else holds its line unshared. -/
theorem MonOk.noRival {caches : Fin N → Cache} {trace : List (Event N)} {i : Fin N} (h : MonOk ls i trace (caches i))
    (hsw : SingleWriter caches) (hone : OneState caches) (hi : i ≠ port) {x : ℕ} (hv : ((caches port).lines x).valid = true)
    (hs : ((caches port).lines x).shared = false) : ∀ k ∈ (caches i).monitor, ((caches port).lines x).tag ≠ ls.getTag k := by
  intro k hk ht
  obtain ⟨hkv, hkt, -⟩ := h k hk
  have htag : ((caches i).lines ((caches i).lineIndex ls k)).tag = ((caches port).lines x).tag := hkt.trans ht.symm
  exact hsw.alone (Ne.symm hi) hv hs hkv htag (hone _ _ _ _ hkv hv htag)

/-- The invariant after the cache of a port has run on from `c`. -/
theorem ExInv.setLocal {c : Cache} {l : Local N} (s₁ : Sys N) (hown : OwnInv ls (s₁.setLocal port l))
    (hl : LocalMon ls port c s₁.trace l) (hloc : LocalTo c l.cache) (hsw : SingleWriter (Function.update s₁.caches port c))
    (hone : OneState (Function.update s₁.caches port c)) (hmon : ∀ i ≠ port, MonOk ls i s₁.trace (s₁.caches i))
    (hops : ∀ i op, i ≠ port → s₁.ops i = some op → OpMon ls i s₁.trace op (s₁.caches i)) : ExInv ls (s₁.setLocal port l) := by
  obtain ⟨new, ht, hnew⟩ := hl.new
  -- what the cache has stored to is no line that another cache monitors
  have hguard : ∀ i ≠ port, ∀ k ∈ (s₁.caches i).monitor, ∀ e ∈ new, ¬ e.Interferes ls i (ls.getTag k) := by
    intro i hi k hk e he hint
    obtain ⟨-, x, hv, hsh, htag⟩ := (hnew e he).2 i _ hint
    have hm : MonOk ls i s₁.trace (Function.update s₁.caches port c i) := by
      rw [Function.update_of_ne hi]
      exact hmon i hi
    refine hm.noRival hsw hone hi (x := x) ?_ ?_ k ?_ ?_
    · rwa [Function.update_self]
    · rwa [Function.update_self]
    · rwa [Function.update_of_ne hi]
    · rwa [Function.update_self]
  refine ⟨hown, ?_, fun i => ?_, Sys.forall_setLocal (P := fun i op c => OpMon ls i l.trace op c) hl.op fun i op hi hop => ?_, hl.sound⟩
  · have hself : LocalTo (Function.update s₁.caches port c port) l.cache := by rwa [Function.update_self]
    have h := hone.localTo hself
    rw [Function.update_idem] at h
    exact h
  · by_cases hi : i = port
    · subst hi
      simp only [Sys.setLocal, Function.update_self]
      exact hl.mon
    · simp only [Sys.setLocal, Function.update_of_ne hi]
      rw [ht]
      exact (hmon i hi).keep (.refl ls _) fun k hk sec hg => hg.append _ (hguard i hi k hk)
  · exact (hops i op hi hop).keep (.refl ls _) ⟨new, ht, fun e he gp => (hnew e he).1 i gp⟩

/-- After a line request that was carried out the monitors of the other caches are in order. -/
theorem ExInv.accept {tr : Transaction} {acc : Accepted N} (h : ExInv ls s)
    (hs : Snooped ls s.waiting s.caches s.exmon s.mem port tr acc) (haligned : ls.getTag tr.address = tr.address)
    (hone : ∀ i ≠ port, ∀ x, ((s.caches i).lines x).valid = true → ((s.caches i).lines x).tag = ls.getTag tr.address →
      ((s.caches i).lines x).secure = tr.genattr.secure)
    (hinv : (snoopOf tr.cmd).invalidates = true → ∀ i ≠ port, ∀ k ∈ (s.caches i).monitor,
      ls.getTag k = ls.getTag tr.address → k = ls.getTag tr.address) {i : Fin N} (hi : i ≠ port) :
    KeepsMon ls (s.caches i) (acc.caches i) ∧ MonOk ls i (s.accept port acc).trace (acc.caches i) := by
  have htrace : (s.accept port acc).trace = .snoop port (snoopOf tr.cmd) acc.tr.address :: s.trace := by
    simp only [Sys.accept, hs.snooped]
  have hkeep : KeepsMon ls (s.caches i) (acc.caches i) := by
    rw [hs.others hi]
    refine .snoopAnswer _ _ _ _ fun hac k hk hin hidx => ?_
    have hkt := (h.mon i k hk).tag
    rw [getLine, hidx] at hkt
    have htag := ((inCache_eq_true ls (s.caches i)).1 hin).2.1
    rw [hinv hac i hi k hk (hkt.symm.trans htag), haligned]
  refine ⟨hkeep, ?_⟩
  rw [htrace]
  refine (h.mon i).keep hkeep fun k hk sec hg => hg.cons ?_
  rintro ⟨-, hac, hline⟩
  -- the snoop has reset the address, if it was monitored
  rw [hs.others hi] at hk
  obtain ⟨hkm, hno⟩ := KeepsMon.mem_snoopAnswer hk
  obtain ⟨hkv, hkt, -⟩ := h.mon i k hkm
  rw [hs.address] at hline
  have hka : k = tr.address := (hinv hac i hi k hkm hline.symm).trans haligned
  refine hno ⟨?_, hac, hka⟩
  rw [← hka, inCache_eq_true]
  exact ⟨hkv, hkt, hone i hi _ hkv (hkt.trans hline.symm)⟩

/-- A line is written to the memory and given up: no monitored address stands for it. -/
theorem ExInv.step_write {order : List (Fin N)} {op : Op} {acc : Accepted N} {f : Fetch} (h : ExInv ls s)
    (hop : s.ops port = some op) (hw : op.pending = .writeclean f ∨ op.pending = .writeback f)
    (hacc : bTransport ls s.waiting order s.caches s.exmon s.mem port (op.transaction ls port (s.caches port)) = some acc)
    (hown : OwnInv ls ((s.accept port acc).setLocal port (resume ls port (acc.caches port) (s.accept port acc).trace op acc.tr))) :
    ExInv ls ((s.accept port acc).setLocal port (resume ls port (acc.caches port) (s.accept port acc).trace op acc.tr)) := by
  have hopm := h.ops port op hop
  have hcmd : (op.transaction ls port (s.caches port)).cmd = .write .writeBack ∨
      (op.transaction ls port (s.caches port)).cmd = .write .writeClean := by
    rcases hw with hp | hp <;> simp [Op.transaction, hp]
  have hbe : (op.transaction ls port (s.caches port)).byteEnable = [] := by
    rcases hw with hp | hp <;> simp [Op.transaction, hp]
  have hne : op.pending ≠ .cleanUnique := by
    rcases hw with hp | hp <;> rw [hp] <;> exact Pending.noConfusion
  obtain rfl := bTransport_write hcmd hbe hacc
  have hok : ({ op.transaction ls port (s.caches port) with response := .ok } : Transaction).response = .ok := rfl
  obtain ⟨done, hdone, hres⟩ := resume_write ls port (s.caches port) s.trace hw hok
  simp only [Sys.accept] at hown ⊢
  rw [hres] at hown ⊢
  have hk : KeepsMon ls (s.caches port) ((s.caches port).setLine ls op.addr done) :=
    .setLine fun k hk hi => absurd hi (hopm.free hne k hk)
  have hu : Function.update s.caches port (s.caches port) = s.caches := Function.update_eq_self ..
  refine ExInv.setLocal (c := s.caches port) _ hown (.of_new ((h.mon port).keep hk fun _ _ _ hg => hg) h.sound (fun op' hop' => ?_)
    (.inl rfl)) (.setLine ls fun hv => by rw [hdone] at hv; cases hv) ?_ ?_ (fun i _ => h.mon i) fun i op' _ hop' => h.ops i op' hop'
  · obtain rfl := Option.some.inj hop'
    refine ⟨hopm.inside, hopm.apart.keep hk rfl le_rfl, hopm.own.keep hk rfl, fun _ k hkm => ?_, fun hwr hmem => ?_, hopm.noExokay,
      hopm.stored⟩
    · rw [hk.lineIndex, hk.lineIndex]
      exact hopm.free hne k (hk.sub k hkm)
    · obtain rfl : f = .readShared := by simpa using hmem
      refine hopm.fetch hwr ?_
      rcases hw with hp | hp <;> simp [hp]
  · rw [hu]
    exact h.own.singleWriter
  · rw [hu]
    exact h.oneState

/-- **One step keeps the invariant.** -/
theorem ExInv.step {a : Action N} (h : ExInv ls s) (hok : s.ExclusiveStep ls a) (hstep : s.step ls a = some s') : ExInv ls s' := by
  have hown := h.own.step hok.cleanUniqueProceeds hstep
  cases a with
  | begin port gp =>
    obtain ⟨-, rfl⟩ := Sys.step_begin hstep
    obtain ⟨hex, hapart, hplaces⟩ := hok
    have hni : ∀ i line, ¬ (Event.begin port gp : Event N).Interferes ls i line := fun _ _ hi => hi
    have hm : ∀ i, MonOk ls i (.begin port gp :: s.trace) (s.caches i) := fun i =>
      (h.mon i).keep (.refl ls _) fun _ _ _ hg => hg.cons (hni _ _)
    have hl : LocalMon ls port (s.caches port) (.begin port gp :: s.trace)
        (runLoop ls port (s.caches port) (.begin port gp :: s.trace) gp 0 false) := by
      refine runLoop_mon false hex (hm port) (fun b _ hb k hk hi => ?_) hplaces (fun _ _ b hb => absurd hb (Nat.not_lt_zero b))
        (h.sound.cons (by simp))
      exact ((inCache_eq_true ls _).1 (hapart b hb k hk hi)).2
    have hu : Function.update s.caches port (s.caches port) = s.caches := Function.update_eq_self ..
    refine ExInv.setLocal { s with trace := .begin port gp :: s.trace } hown hl (runLoop_localTo ls port _ _ _ _ _) ?_ ?_
      (fun i _ => hm i) fun i op hi hop => (h.ops i op hop).keep (.refl ls _) ?_
    · rw [hu]
      exact h.own.singleWriter
    · rw [hu]
      exact h.oneState
    · exact .cons (fun gp' he => hi (Event.begin.inj he).1.symm) (.refl i _)
  | releaseLock =>
    obtain rfl := Option.some.inj hstep
    exact ⟨hown, h.oneState, h.mon, h.ops, h.sound⟩
  | exec port order =>
    obtain ⟨op, acc, hop, hacc, rfl⟩ := Sys.step_exec hstep
    have hpass := hok.cleanUniqueProceeds.passMonitor ls hop
    have hopm := h.ops port op hop
    obtain ⟨-, hone, hinv⟩ := hok op hop
    -- the cache's own snoop leaves its own monitor alone
    have hself : ∀ tr : Transaction, Snooped ls s.waiting s.caches s.exmon s.mem port tr acc →
        (s.accept port acc).trace = .snoop port (snoopOf tr.cmd) acc.tr.address :: s.trace ∧
        OpMon ls port (s.accept port acc).trace op (acc.caches port) ∧
        MonOk ls port (s.accept port acc).trace (acc.caches port) ∧ ExclusiveSound ls (s.accept port acc).trace := by
      intro tr hs
      have htrace : (s.accept port acc).trace = .snoop port (snoopOf tr.cmd) acc.tr.address :: s.trace := by
        simp only [Sys.accept, hs.snooped]
      rw [htrace, hs.self]
      exact ⟨rfl, hopm.keep (.refl ls _) (.cons (by simp) (.refl _ _)), (h.mon port).keep (.refl ls _)
        fun _ _ _ hg => hg.cons fun hi => hi.1 rfl, h.sound.cons (by simp)⟩
    cases hpend : op.pending with
    | writeclean f => exact h.step_write hop (.inl hpend) hacc hown
    | writeback f => exact h.step_write hop (.inr hpend) hacc hown
    | fetch f =>
      have hs := bTransport_lineRequest (Op.lineRequest_fetch hpend) hpass hacc
      have hres : resume ls port (acc.caches port) (s.accept port acc).trace op acc.tr =
          resumeFetch ls port (acc.caches port) (s.accept port acc).trace op f acc.tr := by simp only [resume, hpend]
      have hcmd : (op.transaction ls port (s.caches port)).cmd = f.cmd := by simp only [Op.transaction, hpend]
      have haddr : (op.transaction ls port (s.caches port)).address = ls.getTag op.addr := by simp only [Op.transaction, hpend]
      have hsec : (op.transaction ls port (s.caches port)).genattr.secure = op.gp.getSecure := by
        simp only [Op.transaction, hpend]
      have hone' := hone (by rw [hpend]; rfl)
      rw [← hsec] at hone'
      obtain ⟨htrace, hopm', hmon', hsound'⟩ := hself _ hs
      rw [hres] at hown ⊢
      have hothers := fun i (hi : i ≠ port) => h.accept hs (by rw [haddr, LineSize.getTag_getTag])
        (by rw [haddr, LineSize.getTag_getTag]; exact hone') (fun hac => by
          rw [haddr, LineSize.getTag_getTag]
          refine hinv ?_
          rw [hcmd] at hac
          revert hac
          cases f <;> simp [hpend, Fetch.cmd, snoopOf, AC.invalidates]) hi
      refine ExInv.setLocal _ hown (resumeFetch_mon hopm' hpend hs.response (hs.secure.trans hsec) hmon' hsound')
        (resumeFetch_localTo ls port _ _ _ _ _) (.of_owned (hs.owned_fetch op.addr hcmd haddr (.refl _) h.own.owned)
        (hs.shape_fill h.own.shape)) (h.oneState.fill hs (h.own.shape port) hone') (fun i hi => (hothers i hi).2)
        fun i op' hi hop' => (h.ops i op' hop').keep (hothers i hi).1 ?_
      rw [htrace]
      exact .cons (by simp) (.refl _ _)
    | cleanUnique =>
      obtain ⟨ht, hsec⟩ := h.own.fits port op hop hpend
      have hs := bTransport_lineRequest (Op.lineRequest_cleanUnique hpend ht) hpass hacc
      have hres : resume ls port (acc.caches port) (s.accept port acc).trace op acc.tr =
          resumeCleanUnique ls port (acc.caches port) (s.accept port acc).trace op acc.tr := by simp only [resume, hpend]
      have hcmd : (op.transaction ls port (s.caches port)).cmd = .ignoreRead .cleanUnique := by simp only [Op.transaction, hpend]
      have haddr : (op.transaction ls port (s.caches port)).address = ls.getTag op.addr := by
        simp only [Op.transaction, hpend]
        exact ht
      have hsec' : (op.transaction ls port (s.caches port)).genattr.secure = op.gp.getSecure := by
        simp only [Op.transaction, hpend]
      have hone' := hone (by rw [hpend]; rfl)
      rw [← hsec'] at hone' hsec
      obtain ⟨htrace, hopm', hmon', hsound'⟩ := hself _ hs
      rw [hres] at hown ⊢
      have hothers := fun i (hi : i ≠ port) => h.accept hs (by rw [haddr, LineSize.getTag_getTag])
        (by rw [haddr, LineSize.getTag_getTag]; exact hone') (fun _ => by
          rw [haddr, LineSize.getTag_getTag]
          exact hinv (by simp [hpend])) hi
      refine ExInv.setLocal _ hown (resumeCleanUnique_mon hopm' hs.response hmon' hsound')
        (resumeCleanUnique_localTo ls port _ _ _ _) (.of_owned (hs.owned_cleanUnique op.addr hcmd haddr hsec ht (.refl _) h.own.owned)
        (hs.shape_cleanUnique h.own.shape ht)) (h.oneState.cleanUnique hs) (fun i hi => (hothers i hi).2)
        fun i op' hi hop' => (h.ops i op' hop').keep (hothers i hi).1 ?_
      rw [htrace]
      exact .cons (by simp) (.refl _ _)

end Step

theorem ExInv.init (cacheSz : Fin N → ℕ) (buffers : Fin N → ℕ → ℕ → Byte) (mem : Addr → Byte) :
    ExInv ls (Sys.init cacheSz buffers mem) where
  own := .init cacheSz buffers mem
  oneState i j x y hv := by cases hv
  mon i k hk := by cases hk
  ops i op hop := by cases hop
  sound port gp t ht := by
    have hnil := List.suffix_nil.1 ht
    cases hnil

/-- **Exclusive accesses are sound**: at every state reached by steps that meet `ExclusiveStep`, every
exclusive store that was returned with `exclusive_handled` set has stored to locations that its master had
loaded exclusively, and no other master's store or invalidating transaction came to their lines in between. -/
theorem exclusiveSound_of_reach {cacheSz : Fin N → ℕ} {buffers : Fin N → ℕ → ℕ → Byte} {mem : Addr → Byte} {s : Sys N}
    (h : Reach (Sys.step ls) (Sys.ExclusiveStep ls) (Sys.init cacheSz buffers mem) s) : ExclusiveSound ls s.trace :=
  (h.invariant (I := ExInv ls) (.init cacheSz buffers mem) fun hi hok hs => hi.step hok hs).sound

/-! ### Runs -/

instance (port : Fin N) (line : Addr) : DecidablePred (Event.Interferes ls port line)
  | .store i gp pos _ => inferInstanceAs (Decidable (i ≠ port ∧ ls.getTag (gp.addrAt pos) = line))
  | .snoop i ac addr => inferInstanceAs (Decidable (i ≠ port ∧ ac.invalidates = true ∧ ls.getTag addr = line))
  | .begin .. | .load .. | .ret .. => inferInstanceAs (Decidable False)

/-- The event is an exclusive load of the location by the port. -/
def Event.isExclusiveLoad (port : Fin N) (addr : Addr) : Event N → Bool
  | .load i gl pos _ => decide (i = port) && gl.isExclusive && decide (gl.addrAt pos = addr)
  | _ => false

/-- Looks for the exclusive load, from the newest event on. -/
def guardedBy (ls : LineSize) (port : Fin N) (addr : Addr) : List (Event N) → Bool
  | [] => false
  | e :: t => e.isExclusiveLoad port addr || (!decide (e.Interferes ls port (ls.getTag addr)) && guardedBy ls port addr t)

theorem Guarded.guardedBy {port : Fin N} {trace : List (Event N)} {addr : Addr} {sec : Bool} (h : Guarded ls port addr sec trace) :
    guardedBy ls port addr trace = true := by
  obtain ⟨mid, gl, p, n, t, rfl, hx, ha, -, hm⟩ := h
  induction mid with
  | nil => simp [Ace.guardedBy, Event.isExclusiveLoad, hx, ha]
  | cons e mid ih =>
    simp only [List.cons_append, Ace.guardedBy, ih fun e he => hm e (List.mem_cons_of_mem _ he), Bool.or_eq_true, Bool.and_true,
      Bool.not_eq_true', decide_eq_false_iff_not]
    exact .inr (hm e List.mem_cons_self)

/-- The last event returns an exclusive store with success, though its first byte was not stored to a guarded location. -/
def unsoundReturn (ls : LineSize) : List (Event N) → Bool
  | .ret port gp :: t =>
    gp.write && gp.isExclusive && gp.hasExokay && decide (0 < gp.dataLength) && t.tails.all fun
      | .store i _ 0 _ :: u => decide (i ≠ port) || !guardedBy ls port (gp.addrAt 0) u
      | _ => true
  | _ => false

theorem not_exclusiveSound_of_unsoundReturn {trace : List (Event N)} (h : unsoundReturn ls trace = true) :
    ¬ ExclusiveSound ls trace := by
  intro hs
  unfold unsoundReturn at h
  split at h
  · rename_i port gp t
    simp only [Bool.and_eq_true, decide_eq_true_eq, List.all_eq_true, List.mem_tails] at h
    obtain ⟨⟨⟨⟨hw, hx⟩, hok⟩, hl⟩, hall⟩ := h
    obtain ⟨gp', p, n, u, ⟨new, ht, -⟩, -, hp, -, hg⟩ := hs port gp t (List.suffix_refl _) hw hx hok 0 hl
    obtain rfl := Nat.le_zero.1 hp
    have h0 := hall (.store port gp' 0 n :: u) ⟨new, ht.symm⟩
    simp [hg.guardedBy] at h0
  · cases h

section Runs

/-- A payload of four bytes. -/
def word (write exclusive : Bool) (address : Addr) : Payload :=
  { write, address, dataLength := 4, data := fun _ => 0xa5, attr := some { exclusive } }

/-- The exclusive sequence of one master. -/
def loadStoreExclusive : List (Action 2) :=
  [.begin 0 (word false true 0x1000), .exec 0 [1], .begin 0 (word true true 0x1000)]

/-- Its store succeeds, and the promise is kept. -/
theorem exclusiveSound_loadStoreExclusive : ∃ s : Sys 2,
    run (Sys.step .default) (Sys.init (fun _ => 4096) (fun _ _ _ => 0) fun _ => 0) loadStoreExclusive = some s ∧
      ExclusiveSound .default s.trace := by
  have hrun : (run (Sys.step .default) (Sys.init (fun _ => 4096) (fun _ _ _ => 0) fun _ => 0) loadStoreExclusive).isSome := by
    decide +kernel
  obtain ⟨s, hs⟩ := Option.isSome_iff_exists.1 hrun
  -- the load waits for its `ReadShared`, and the store hits the line of the load
  have hfetch : ((Sys.init (fun _ => 4096) (fun _ _ _ => 0) fun _ => 0 : Sys 2).step .default
      (.begin 0 (word false true 0x1000))).all (fun s => (s.ops 0).all fun op => decide (op.pending = .fetch .readShared)) := by
    decide +kernel
  have hhit : (run (Sys.step .default) (Sys.init (fun _ => 4096) (fun _ _ _ => 0) fun _ => 0 : Sys 2)
      [.begin 0 (word false true 0x1000), .exec 0 [1]]).all (fun s => (List.range 4).all fun b =>
        (s.caches 0).inCache .default ((word true true 0x1000).addrAt b) (word true true 0x1000).getSecure) := by
    decide +kernel
  have hok : RunOk (Sys.step .default) (Sys.ExclusiveStep .default) (Sys.init (fun _ => 4096) (fun _ _ _ => 0) fun _ => 0)
      loadStoreExclusive → ExclusiveSound .default s.trace := fun h => exclusiveSound_of_reach (Reach.refl.of_run h hs)
  refine ⟨s, hs, hok ⟨⟨fun hw => (by cases hw), fun b _ k hk => (by cases hk), ?_⟩, fun s₁ h₁ => ⟨fun op hop => ?_,
    fun s₂ h₂ => ⟨⟨fun _ _ => rfl, fun b hb k _ _ => ?_, fun hw => (by cases hw)⟩, fun _ _ => trivial⟩⟩⟩⟩
  · have hb : ∀ b < 4, LineSize.getTag .default ((word false true 0x1000).addrAt b) = 0x1000 := by decide +kernel
    exact fun _ _ b hb₁ b' hb₂ _ => (hb b hb₁).trans (hb b' hb₂).symm
  · have hp : op.pending = .fetch .readShared := by
      rw [h₁] at hfetch
      simpa [hop] using hfetch
    obtain ⟨-, rfl⟩ := Sys.step_begin h₁
    refine ⟨fun hc => ?_, fun _ i hi x hv => ?_, fun hm => ?_⟩
    · rw [hp] at hc
      cases hc
    · simp only [Sys.setLocal, Function.update_of_ne hi] at hv
      cases hv
    · rw [hp] at hm
      simp at hm
  · have h₁₂ : run (Sys.step .default) (Sys.init (fun _ => 4096) (fun _ _ _ => 0) fun _ => 0 : Sys 2)
        [.begin 0 (word false true 0x1000), .exec 0 [1]] = some s₂ := by
      simp only [run, h₁, h₂, Option.bind_some]
    rw [h₁₂] at hhit
    simp only [Option.all_some, List.all_eq_true, List.mem_range] at hhit
    exact hhit b hb

/-- An exclusive sequence on an address inside a line, with the store of another master in between. -/
def interferedUnaligned : List (Action 2) :=
  [.begin 0 (word false true 0x1004), .exec 0 [1], .begin 1 (word true false 0x1004), .exec 1 [0],
    .begin 0 (word true true 0x1004), .exec 0 [1]]

/-- **A stale monitor**: the exclusive store succeeds. The snoop of the other master's store has reset the
monitor for the line, and the monitor holds the address inside it. -/
theorem staleMonitor : ∃ s : Sys 2,
    Reach (Sys.step .default) anyStep (Sys.init (fun _ => 4096) (fun _ _ _ => 0) fun _ => 0) s ∧
      ¬ ExclusiveSound .default s.trace := by
  have hrun : (run (Sys.step .default) (Sys.init (fun _ => 4096) (fun _ _ _ => 0) fun _ => 0) interferedUnaligned).any
      (fun s => unsoundReturn .default s.trace) = true := by
    decide +kernel
  obtain ⟨s, hs, hu⟩ := (Option.any_eq_true _ _).1 hrun
  exact ⟨s, reach_of_run hs, not_exclusiveSound_of_unsoundReturn hu⟩

end Runs

end LibSystemCTLM.Ace
