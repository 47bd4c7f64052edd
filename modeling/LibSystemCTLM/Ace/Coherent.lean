import LibSystemCTLM.Ace.Memory

/-!
# What loads return

`Coherent` is the purpose of the caches: every byte a returned load has for an enabled position is
the byte of the flat memory at a moment between its begin and its return, and a returned store has
stored its enabled bytes in between. It holds along all runs whose steps meet `CoherentStep`
(`coherent_of_reach`): `Coh` relates caches and memory to the flat memory, `Progress` says how far
the payload of a port has got, and `OpOk` what its cache holds while it is blocked.
-/

namespace LibSystemCTLM.Ace

open Foundation Foundation.Coherence Cache

variable {N : ℕ} {ls : LineSize}

/-! ### Moments of a payload -/

/-- `t` is the trace at a moment since the payload under way at the port began. -/
def SinceBegin (port : Fin N) (trace t : List (Event N)) : Prop :=
  ∃ new, trace = new ++ t ∧ ∀ e ∈ new, ∀ gp, e ≠ .begin port gp

section SinceBegin

variable {port : Fin N} {trace t u : List (Event N)}

theorem SinceBegin.refl (port : Fin N) (trace : List (Event N)) : SinceBegin port trace trace := ⟨[], rfl, by simp⟩

theorem SinceBegin.trans (h : SinceBegin port trace t) (h' : SinceBegin port t u) : SinceBegin port trace u := by
  obtain ⟨new, rfl, hn⟩ := h
  obtain ⟨new', rfl, hn'⟩ := h'
  refine ⟨new ++ new', (List.append_assoc ..).symm, fun e he => ?_⟩
  rcases List.mem_append.1 he with h | h
  · exact hn e h
  · exact hn' e h

theorem SinceBegin.cons {e : Event N} (he : ∀ gp, e ≠ .begin port gp) (h : SinceBegin port trace t) :
    SinceBegin port (e :: trace) t :=
  .trans ⟨[e], rfl, by simpa using he⟩ h

end SinceBegin

/-- The bytes below `pos` that a load has read. -/
def ReadUpTo (mem₀ : Addr → Byte) (port : Fin N) (trace : List (Event N)) (gp : Payload) (pos : ℕ) : Prop :=
  ∀ b < pos, gp.enabled b = true → ∃ t, SinceBegin port trace t ∧ gp.data b = flat mem₀ t (gp.addrAt b)

/-- The bytes below `pos` that a store has stored. -/
def StoredUpTo (port : Fin N) (trace : List (Event N)) (gp : Payload) (pos : ℕ) : Prop :=
  ∀ b < pos, ∃ gp' p n t, SinceBegin port trace (.store port gp' p n :: t) ∧ gp'.request = gp.request ∧ p ≤ b ∧ b < p + n

/-- How far the payload of a port has got. -/
structure Progress (mem₀ : Addr → Byte) (port : Fin N) (trace : List (Event N)) (gp : Payload) (pos : ℕ) : Prop where
  /-- It is the payload that began last. -/
  begun : ∃ gp₀ t, SinceBegin port trace (.begin port gp₀ :: t) ∧ gp.request = gp₀.request
  read : gp.write = false → ReadUpTo mem₀ port trace gp pos
  stored : gp.write = true → StoredUpTo port trace gp pos

/-- **The purpose of the caches**, on a trace: whatever payload is returned, it is the one that was
sent; a load has for every enabled byte the most recent store at a moment since it was sent, or the
initial byte; and a store that is not exclusive has stored all its bytes since. -/
def Coherent (mem₀ : Addr → Byte) (trace : List (Event N)) : Prop :=
  ∀ port gp t, (.ret port gp :: t) <:+ trace →
    (∃ gp₀ u, SinceBegin port t (.begin port gp₀ :: u) ∧ gp.request = gp₀.request) ∧
    (gp.write = false → ReadUpTo mem₀ port t gp gp.dataLength) ∧
    (gp.write = true → gp.isExclusive = false → StoredUpTo port t gp gp.dataLength)

section Progress

variable {mem₀ : Addr → Byte} {port : Fin N} {trace trace' : List (Event N)} {gp gp' : Payload} {pos : ℕ}

/-- Payloads that ask for the same have the same bytes enabled at the same addresses. -/
theorem request_fields (h : gp'.request = gp.request) :
    gp'.write = gp.write ∧ gp'.dataLength = gp.dataLength ∧ gp'.enabled = gp.enabled ∧ gp'.addrAt = gp.addrAt ∧
      gp'.isExclusive = gp.isExclusive ∧ gp'.getSecure = gp.getSecure := by
  have ha : gp'.address = gp.address := (congrArg Payload.address h :)
  have hb : gp'.byteEnable = gp.byteEnable := (congrArg Payload.byteEnable h :)
  refine ⟨(congrArg Payload.write h :), (congrArg Payload.dataLength h :), funext fun i => ?_, funext fun i => ?_, ?_, ?_⟩
  · rw [Payload.enabled, Payload.enabled, hb]
  · rw [Payload.addrAt, Payload.addrAt, ha]
  · rw [← gp'.isExclusive_request, h, gp.isExclusive_request]
  · rw [← gp'.getSecure_request, h, gp.getSecure_request]

/-- Progress is kept while the trace grows and the payload keeps its bytes. -/
theorem Progress.mono (h : Progress mem₀ port trace gp pos) (ht : SinceBegin port trace' trace)
    (hr : gp'.request = gp.request) (hd : gp'.data = gp.data) : Progress mem₀ port trace' gp' pos := by
  obtain ⟨hw, -, he, ha, -⟩ := request_fields hr
  refine ⟨?_, fun hl b hb hen => ?_, fun hl b hb => ?_⟩
  · obtain ⟨gp₀, t, hs, hg⟩ := h.begun
    exact ⟨gp₀, t, ht.trans hs, hr.trans hg⟩
  · obtain ⟨t, hs, hv⟩ := h.read (hw ▸ hl) b hb (he ▸ hen)
    exact ⟨t, ht.trans hs, by rw [hd, ha]; exact hv⟩
  · obtain ⟨g, p, n, t, hs, hg, hp⟩ := h.stored (hw ▸ hl) b hb
    exact ⟨g, p, n, t, ht.trans hs, hg.trans hr.symm, hp⟩

theorem Progress.begin (mem₀ : Addr → Byte) (port : Fin N) (trace : List (Event N)) (gp : Payload) :
    Progress mem₀ port (.begin port gp :: trace) gp 0 :=
  ⟨⟨gp, trace, .refl _ _, rfl⟩, fun _ b hb => absurd hb (Nat.not_lt_zero b), fun _ b hb => absurd hb (Nat.not_lt_zero b)⟩

/-- A store goes on by the segment it has written. -/
theorem Progress.store {n : ℕ} (h : Progress mem₀ port trace gp pos) (hw : gp.write = true) :
    Progress mem₀ port (.store port gp pos n :: trace) gp (pos + n) := by
  refine ⟨?_, fun hf => absurd hf (by simp [hw]), fun _ b hb => ?_⟩
  · obtain ⟨gp₀, t, hs, hg⟩ := h.begun
    exact ⟨gp₀, t, hs.cons (by simp), hg⟩
  · by_cases hbp : pos ≤ b
    · exact ⟨gp, pos, n, trace, .refl _ _, rfl, hbp, hb⟩
    · obtain ⟨g, p, n, t, hs, hg, hpb⟩ := h.stored hw b (by omega)
      exact ⟨g, p, n, t, hs.cons (by simp), hg, hpb⟩

theorem Coherent.cons (h : Coherent mem₀ trace) {e : Event N} (he : ∀ port gp, e ≠ .ret port gp) : Coherent mem₀ (e :: trace) := by
  intro port gp t ht
  rcases List.suffix_cons_iff.1 ht with heq | hs
  · exact absurd (List.cons.inj heq).1.symm (he port gp)
  · exact h port gp t hs

/-- A payload that has got to its end is returned. -/
theorem Coherent.ret (h : Coherent mem₀ trace) (hp : Progress mem₀ port trace gp pos) (hr : gp'.request = gp.request)
    (hd : gp'.data = gp.data) (hl : gp.write = false → gp.dataLength ≤ pos)
    (hs : gp.write = true → gp.isExclusive = false → gp.dataLength ≤ pos) : Coherent mem₀ (.ret port gp' :: trace) := by
  intro port' g t ht
  rcases List.suffix_cons_iff.1 ht with heq | hs'
  · obtain ⟨hev, rfl⟩ := List.cons.inj heq
    obtain ⟨rfl, rfl⟩ := Event.ret.inj hev
    obtain ⟨hw, hlen, -, -, hex, -⟩ := request_fields hr
    have hp' := hp.mono (.refl _ _) hr hd
    exact ⟨hp'.begun, fun hf b hb => hp'.read hf b (lt_of_lt_of_le (hlen ▸ hb) (hl (hw ▸ hf))),
      fun ht he b hb => hp'.stored ht b (lt_of_lt_of_le (hlen ▸ hb) (hs (hw ▸ ht) (hex ▸ he)))⟩
  · exact h port' g t hs'

end Progress

/-! ### Loops -/

/-- What a blocked payload knows of its cache. -/
structure OpOk (ls : LineSize) (mem₀ : Addr → Byte) (port : Fin N) (trace : List (Event N)) (op : Op) (c : Cache) : Prop where
  progress : Progress mem₀ port trace op.gp op.pos
  /-- The line a fetch is for is free, and before that the line in the way is valid. -/
  slot : (c.getLine ls op.addr).valid = op.pending.writeOngoing ∨ op.pending = .cleanUnique
  /-- A `MakeUnique` is for a whole line of a store, whose exclusive sequence is still on. -/
  make : op.pending ∈ [.fetch .makeUnique, .writeclean .makeUnique, Pending.writeback .makeUnique] →
    op.gp.write = true ∧ op.pos < op.gp.dataLength ∧ toWrite ls op.gp op.pos = ls.size ∧
      (op.gp.isExclusive = true → op.addr ∈ c.monitor)
  /-- Only a store waits for a `CleanUnique`. -/
  clean : op.pending = .cleanUnique → op.gp.write = true

/-- A cache that has run on has left everything in order. -/
structure LocalOk (ls : LineSize) (mem₀ : Addr → Byte) (caches : Fin N → Cache) (mem : Addr → Byte) (port : Fin N)
    (trace : List (Event N)) (l : Local N) : Prop where
  coh : Coh ls (Function.update caches port l.cache) mem (flat mem₀ l.trace)
  coherent : Coherent mem₀ l.trace
  op : ∀ op, l.op = some op → OpOk ls mem₀ port l.trace op l.cache
  /-- Nothing began in the meantime. -/
  since : ∀ i, SinceBegin i l.trace trace

section Loops

variable {mem₀ : Addr → Byte} {caches : Fin N → Cache} {mem : Addr → Byte} {port : Fin N} {c : Cache}
  {trace trace' : List (Event N)} {gp : Payload} {pos : ℕ}

theorem LocalOk.since_trans {l : Local N} (h : LocalOk ls mem₀ caches mem port trace' l)
    (ht : ∀ i, SinceBegin i trace' trace) : LocalOk ls mem₀ caches mem port trace l :=
  ⟨h.coh, h.coherent, h.op, fun i => (h.since i).trans (ht i)⟩

/-- A fetch that starts leaves the line it is for free, or has still to write the line in the way. -/
theorem startFetch_slot (ls : LineSize) (c : Cache) (addr : Addr) (f : Fetch) :
    ((c.startFetch ls addr f).1.getLine ls addr).valid = (c.startFetch ls addr f).2.writeOngoing ∧
      (c.startFetch ls addr f).2 ∈ [.fetch f, .writeclean f, Pending.writeback f] ∧
      (c.startFetch ls addr f).1.monitor = c.monitor := by
  simp only [startFetch]
  split
  · rename_i hv
    split
    · refine ⟨?_, ?_, rfl⟩
      · show (c.getLine ls addr).valid = _
        rw [hv]
        split <;> rfl
      · split <;> simp
    · exact ⟨by simp [evict, Pending.writeOngoing], by simp, rfl⟩
  · rename_i hv
    exact ⟨by simpa [Pending.writeOngoing] using hv, by simp, rfl⟩

theorem OpOk.startFetch {f : Fetch} (hp : Progress mem₀ port trace gp pos)
    (hm : f = .makeUnique → gp.write = true ∧ pos < gp.dataLength ∧ toWrite ls gp pos = ls.size ∧
      (gp.isExclusive = true → gp.addrAt pos ∈ c.monitor)) (ef : Bool) :
    OpOk ls mem₀ port trace { gp, pos, exclusiveFailed := ef, pending := (c.startFetch ls (gp.addrAt pos) f).2 }
      (c.startFetch ls (gp.addrAt pos) f).1 := by
  obtain ⟨hv, hmem, hmon⟩ := startFetch_slot ls c (gp.addrAt pos) f
  refine ⟨hp, .inl hv, fun hmk => ?_, fun hcu => absurd hcu (startFetch_pending ls c _ f)⟩
  have hf : f = .makeUnique := by
    revert hmk hmem
    generalize (c.startFetch ls (gp.addrAt pos) f).2 = p
    simp only [List.mem_cons, List.not_mem_nil, or_false]
    rintro (rfl | rfl | rfl) h <;> simpa using h
  rw [hmon]
  exact hm hf

/-- **The loop of a load.** -/
theorem loadLoop_ok (fuel : ℕ) (ef : Bool) (hfuel : gp.dataLength - pos ≤ fuel) (hw : gp.write = false)
    (hcoh : Coh ls (Function.update caches port c) mem (flat mem₀ trace)) (hc : Coherent mem₀ trace)
    (hp : Progress mem₀ port trace gp pos) :
    LocalOk ls mem₀ caches mem port trace (loadLoop ls port fuel c trace gp pos ef) := by
  have hret : ∀ {c : Cache} {trace : List (Event N)} {gp : Payload} {pos : ℕ}, gp.write = false → gp.dataLength ≤ pos →
      Coh ls (Function.update caches port c) mem (flat mem₀ trace) → Coherent mem₀ trace →
      Progress mem₀ port trace gp pos → LocalOk ls mem₀ caches mem port trace (returnLoad port c trace gp ef) := by
    intro c trace gp pos hw hl hcoh hc hp
    refine ⟨hcoh, hc.ret hp ?_ ?_ (fun _ => hl) (fun ht => ?_), fun op hop => ?_, fun i => .cons (by simp) (.refl i _)⟩
    · split <;> simp
    · split <;> rfl
    · rw [hw] at ht
      cases ht
    · cases hop
  induction fuel generalizing c trace gp pos with
  | zero => exact hret hw (Nat.sub_eq_zero_iff_le.1 (Nat.le_zero.1 hfuel)) hcoh hc hp
  | succ fuel ih =>
    simp only [loadLoop]
    split
    · rename_i hlt
      split
      · -- a hit: the segment is read from the line, which has the flat bytes
        rename_i hin
        have hpos := toWrite_pos ls hlt
        have hreq := readLine_request ls c pos hw
        obtain ⟨-, -, he, ha, -⟩ := request_fields hreq
        have hp' : Progress mem₀ port (.load port (c.readLine ls gp pos) pos (toWrite ls gp pos) :: trace)
            (c.readLine ls gp pos) (pos + toWrite ls gp pos) := by
          refine ⟨?_, fun _ b hb hen => ?_, fun ht => ?_⟩
          · obtain ⟨gp₀, t, hs, hg⟩ := hp.begun
            exact ⟨gp₀, t, hs.cons (by simp), hreq.trans hg⟩
          · rw [he] at hen
            rw [ha]
            by_cases hbp : pos ≤ b
            · refine ⟨trace, .cons (by simp) (.refl _ _), ?_⟩
              obtain ⟨hv, ht, -⟩ := (inCache_eq_true ls c).1 hin
              have hoff := getLineOffset_add_toWrite ls gp pos
              have hd := hcoh.data (i := port) (x := c.lineIndex ls (gp.addrAt pos)) (by rw [Function.update_self]; exact hv)
                (ls.getLineOffset (gp.addrAt pos) + (b - pos)) (by omega)
              rw [Function.update_self] at hd
              rw [show c.lines (c.lineIndex ls (gp.addrAt pos)) = c.getLine ls (gp.addrAt pos) from rfl, ht, ← addrAt_eq,
                show pos + (b - pos) = b by omega] at hd
              rw [← hd]
              exact if_pos ⟨hbp, by omega, hen⟩
            · obtain ⟨t, hs, hv⟩ := hp.read hw b (by omega) hen
              refine ⟨t, hs.cons (by simp), ?_⟩
              rw [← hv]
              exact if_neg fun hh => hbp hh.1
          · rw [show (c.readLine ls gp pos).write = gp.write from rfl, hw] at ht
            cases ht
        have hcoh' : Coh ls (Function.update caches port c) mem
            (flat mem₀ (.load port (c.readLine ls gp pos) pos (toWrite ls gp pos) :: trace)) := hcoh
        have hw' : (c.readLine ls gp pos).write = false := hw
        refine (ih ?_ hw' hcoh' (hc.cons (by simp)) hp').since_trans fun i => .cons (by simp) (.refl i _)
        show gp.dataLength - (pos + toWrite ls gp pos) ≤ fuel
        omega
      · -- a miss
        refine ⟨?_, hc, fun op hop => ?_, fun i => .refl i _⟩
        · have hq : QuietTo c (if gp.isExclusive then c else c.getToggle) := by
            split
            · exact .refl c
            · exact .of_lines rfl rfl
          exact hcoh.quietTo_self (hq.trans (quietTo_startFetch ls _ _ _))
        · obtain rfl := Option.some.inj hop
          have hne : ∀ b : Bool, (if b = true then Fetch.readShared else .readNotSharedDirty) ≠ .makeUnique := by decide
          exact .startFetch hp (fun hf => absurd hf (hne _)) ef
    · rename_i hge
      exact hret hw (Nat.not_lt.1 hge) hcoh hc hp

/-- **The loop of a store.** -/
theorem storeLoop_ok (fuel : ℕ) (hfuel : gp.dataLength - pos ≤ fuel) (hw : gp.write = true)
    (hcoh : Coh ls (Function.update caches port c) mem (flat mem₀ trace)) (hc : Coherent mem₀ trace)
    (hp : Progress mem₀ port trace gp pos) :
    LocalOk ls mem₀ caches mem port trace (storeLoop ls port fuel c trace gp pos) := by
  have hret : ∀ {c : Cache} {trace : List (Event N)} {pos : ℕ}, (gp.isExclusive = false → gp.dataLength ≤ pos) →
      Coh ls (Function.update caches port c) mem (flat mem₀ trace) → Coherent mem₀ trace →
      Progress mem₀ port trace gp pos → LocalOk ls mem₀ caches mem port trace (returnStore port c trace gp pos) := by
    intro c trace pos hl hcoh hc hp
    refine ⟨hcoh, hc.ret hp ?_ ?_ (fun hf => ?_) (fun _ => hl), fun op hop => ?_, fun i => .cons (by simp) (.refl i _)⟩
    · split <;> simp
    · split <;> rfl
    · rw [hw] at hf
      cases hf
    · cases hop
  induction fuel generalizing c trace pos with
  | zero => exact hret (fun _ => Nat.sub_eq_zero_iff_le.1 (Nat.le_zero.1 hfuel)) hcoh hc hp
  | succ fuel ih =>
    simp only [storeLoop]
    split
    · rename_i hlt
      split
      · -- the exclusive sequence is over
        rename_i hex
        refine hret (fun he => ?_) hcoh hc hp
        rw [he] at hex
        cases hex
      · rename_i hmon
        split
        · split
          · -- a hit on an unshared line: the segment is written
            rename_i hin hu
            have hpos := toWrite_pos ls hlt
            have hwr : Coh ls (Function.update (Function.update caches port c) port
                ((Function.update caches port c port).writeLine ls gp pos true)) mem
                (flat mem₀ (.store port gp pos (toWrite ls gp pos) :: trace)) :=
              hcoh.writeLine rfl (by rw [Function.update_self]; exact hin) (by rw [Function.update_self]; exact hu)
            rw [Function.update_self, Function.update_idem] at hwr
            refine (ih ?_ ?_ (hc.cons (by simp)) ?_).since_trans fun i => .cons (by simp) (.refl i _)
            · omega
            · split
              · exact hwr.quietTo_self (quietTo_monitorReset _ _)
              · exact hwr
            · exact hp.store hw
          · -- a hit on a shared line
            refine ⟨hcoh, hc, fun op hop => ?_, fun i => .refl i _⟩
            obtain rfl := Option.some.inj hop
            exact ⟨hp, .inr rfl, fun hmk => absurd hmk (by simp), fun _ => hw⟩
        · -- a miss
          refine ⟨?_, hc, fun op hop => ?_, fun i => .refl i _⟩
          · exact hcoh.quietTo_self (quietTo_startFetch ls c _ _)
          · obtain rfl := Option.some.inj hop
            refine .startFetch hp (fun hf => ⟨hw, hlt, ?_, fun hex => ?_⟩) false
            · by_contra hne
              rw [if_neg hne] at hf
              cases hf
            · simpa [hex, monitorIsSet] using hmon
    · rename_i hge
      exact hret (fun _ => Nat.not_lt.1 hge) hcoh hc hp

theorem runLoop_ok (ef : Bool) (hcoh : Coh ls (Function.update caches port c) mem (flat mem₀ trace))
    (hc : Coherent mem₀ trace) (hp : Progress mem₀ port trace gp pos) :
    LocalOk ls mem₀ caches mem port trace (runLoop ls port c trace gp pos ef) := by
  unfold runLoop
  split
  · rename_i hw
    exact storeLoop_ok _ le_rfl hw hcoh hc hp
  · rename_i hw
    exact loadLoop_ok _ ef le_rfl (Bool.eq_false_iff.2 hw) hcoh hc hp

end Loops

/-! ### Running on after a transaction -/

section Resume

variable {mem₀ : Addr → Byte} {caches : Fin N → Cache} {mem : Addr → Byte} {port : Fin N} {c : Cache}
  {trace : List (Event N)} {op : Op} {f : Fetch} {tr : Transaction}

/-- The exclusive response is no part of the bytes of a payload. -/
theorem fetched_data (op : Op) (f : Fetch) (tr : Transaction) : (op.fetched f tr).data = op.gp.data := by
  unfold Op.fetched
  split <;> rfl

theorem cleaned_data (op : Op) (valid : Bool) (tr : Transaction) : (op.cleaned valid tr).data = op.gp.data := by
  unfold Op.cleaned
  split <;> rfl

/-- After a fetch that has brought in the flat bytes. -/
theorem resumeFetch_ok (hcoh : Coh ls (Function.update caches port (c.fillLine ls op.addr f tr)) mem (flat mem₀ trace))
    (hc : Coherent mem₀ trace) (hp : Progress mem₀ port trace op.gp op.pos) :
    LocalOk ls mem₀ caches mem port trace (resumeFetch ls port c trace op f tr) := by
  have hpf : Progress mem₀ port trace (op.fetched f tr) op.pos :=
    hp.mono (.refl _ _) (fetched_request op f tr) (fetched_data op f tr)
  unfold resumeFetch
  dsimp only
  split
  · exact runLoop_ok _ (hcoh.quietTo_self (quietTo_monitorSet _ _)) hc
      (hpf.mono (.refl _ _) (Payload.clearExokay_request _) rfl)
  · exact runLoop_ok _ hcoh hc hpf

theorem resumeCleanUnique_ok
    (hcoh : Coh ls (Function.update caches port (c.afterCleanUnique ls op.addr tr)) mem (flat mem₀ trace))
    (hc : Coherent mem₀ trace) (hp : Progress mem₀ port trace op.gp op.pos) (hw : op.gp.write = true) :
    LocalOk ls mem₀ caches mem port trace (resumeCleanUnique ls port c trace op tr) := by
  generalize hv : ((c.afterCleanUnique ls op.addr tr).getLine ls op.addr).valid = valid
  have hr := cleaned_request op valid tr
  have hpc : Progress mem₀ port trace (op.cleaned valid tr) op.pos := hp.mono (.refl _ _) hr (cleaned_data op valid tr)
  simp only [resumeCleanUnique, hv]
  split
  · rename_i hex
    split
    · exact runLoop_ok _ hcoh hc (hpc.mono (.refl _ _) (Payload.clearExokay_request _) rfl)
    · -- the exclusive store fails
      obtain ⟨hwr, -⟩ := request_fields hr
      refine ⟨hcoh.quietTo_self (quietTo_monitorReset _ _), hc.ret hpc ?_ ?_ (fun hf => ?_) (fun _ hne => ?_), fun op' hop => ?_,
        fun i => .cons (by simp) (.refl i _)⟩
      · split <;> simp
      · split <;> rfl
      · rw [hwr, hw] at hf
        cases hf
      · rw [hex] at hne
        cases hne
      · cases hop
  · exact runLoop_ok _ hcoh hc hpc

/-- **After a `MakeUnique`** the store goes on with the segment it was sent for, and writes all of the line. -/
theorem resumeFetch_makeUnique (hok : tr.response = .ok) (hsec : tr.genattr.secure = op.gp.getSecure)
    (hw : op.gp.write = true) (hlt : op.pos < op.gp.dataLength)
    (hmon : op.gp.isExclusive = true → op.addr ∈ c.monitor) :
    resumeFetch ls port c trace op .makeUnique tr =
      storeLoop ls port (op.gp.dataLength - op.pos - 1)
        (if op.gp.isExclusive then ((c.fillLine ls op.addr .makeUnique tr).writeLine ls op.gp op.pos true).monitorReset op.addr
          else (c.fillLine ls op.addr .makeUnique tr).writeLine ls op.gp op.pos true)
        (.store port op.gp op.pos (toWrite ls op.gp op.pos) :: trace) op.gp (op.pos + toWrite ls op.gp op.pos) := by
  obtain ⟨hin, hu⟩ := hit_makeUnique ls c op.addr hok
  have hm : (op.gp.isExclusive && !(c.fillLine ls op.addr .makeUnique tr).monitorIsSet op.addr) = false := by
    cases hex : op.gp.isExclusive with
    | false => rfl
    | true =>
      have hset : (c.fillLine ls op.addr .makeUnique tr).monitorIsSet op.addr = true := by
        rw [monitorIsSet, monitor_fillLine]
        exact decide_eq_true (hmon hex)
      rw [hset]
      rfl
  have hfuel : op.gp.dataLength - op.pos = (op.gp.dataLength - op.pos - 1) + 1 := by omega
  have hf : op.fetched .makeUnique tr = op.gp := rfl
  rw [resumeFetch, hf]
  simp only [hw, Bool.not_true, Bool.and_false, Bool.false_eq_true, if_false, runLoop, if_true]
  rw [hfuel, storeLoop, if_pos hlt, show op.gp.addrAt op.pos = op.addr from rfl, hm, if_neg Bool.false_ne_true,
    ← hsec, if_pos hin, if_pos hu]
  rfl

/-- Storing a whole line over a line of unknown bytes. -/
theorem Coh.storeLine {v : Addr → Byte} {d : ℕ → Byte} (hv : v = flat mem₀ trace)
    (hcoh : Coh ls (Function.update caches port c) mem (writeAt v (ls.getTag op.addr) ls.size d))
    (hin : c.inCache ls op.addr op.gp.getSecure = true) (hu : c.isUnique ls op.addr = true)
    (hlen : toWrite ls op.gp op.pos = ls.size) (hbe : ∀ i < ls.size, op.gp.enabled (op.pos + i) = true) :
    Coh ls (Function.update caches port (c.writeLine ls op.gp op.pos true)) mem
      (flat mem₀ (.store port op.gp op.pos (toWrite ls op.gp op.pos) :: trace)) := by
  -- the flat memory before the store matters outside the line only
  have hwr : Coh ls (Function.update (Function.update caches port c) port
      ((Function.update caches port c port).writeLine ls op.gp op.pos true)) mem
      (flat (writeAt v (ls.getTag op.addr) ls.size d) (.store port op.gp op.pos (toWrite ls op.gp op.pos) :: [])) :=
    hcoh.writeLine rfl (by rw [Function.update_self]; exact hin) (by rw [Function.update_self]; exact hu)
  rw [Function.update_self, Function.update_idem] at hwr
  have hoff : ls.getLineOffset (op.gp.addrAt op.pos) = 0 := by
    have h := getLineOffset_add_toWrite ls op.gp op.pos
    omega
  have heq : flat (writeAt v (ls.getTag op.addr) ls.size d) (.store port op.gp op.pos (toWrite ls op.gp op.pos) :: []) =
      flat mem₀ (.store port op.gp op.pos (toWrite ls op.gp op.pos) :: trace) := by
    funext x
    rw [flat_store, flat_store, flat_nil, writeAt_size (ls.getTag_getTag op.addr), hv, hoff, hlen]
    by_cases hx : ls.getTag x = ls.getTag op.addr
    · have hlt := ls.getLineOffset_lt x
      rw [if_pos ⟨hx, Nat.zero_le _, by omega, hbe _ (by omega)⟩, if_pos ⟨hx, Nat.zero_le _, by omega, hbe _ (by omega)⟩]
    · have hn : ∀ {q : Prop}, ¬ (ls.getTag x = ls.getTag (op.gp.addrAt op.pos) ∧ q) := fun hh => hx hh.1
      rw [if_neg hn, if_neg hn, if_neg hx]
  rwa [heq] at hwr

end Resume

/-! ### The invariant -/

/-- The condition on a step: an exclusive `CleanUnique` is not refused, a fetch finds the line under one
security state, and a `MakeUnique` is for a segment without a disabled byte. -/
def Sys.CoherentStep (ls : LineSize) (s : Sys N) : Action N → Prop
  | .exec port _ => ∀ op, s.ops port = some op →
      (op.pending = .cleanUnique → op.gp.isExclusive = true → s.exmon.isSet port = true) ∧
      (∀ f, op.pending = .fetch f → ∀ i ≠ port, ∀ x, ((s.caches i).lines x).valid = true →
        ((s.caches i).lines x).tag = ls.getTag op.addr → ((s.caches i).lines x).secure = op.gp.getSecure) ∧
      (op.pending = .fetch .makeUnique → ∀ i < ls.size, op.gp.enabled (op.pos + i) = true)
  | _ => True

theorem Sys.CoherentStep.cleanUniqueProceeds {s : Sys N} {a : Action N} (h : s.CoherentStep ls a) :
    s.CleanUniqueProceeds a := by
  cases a with
  | exec port order => exact fun op hop => (h op hop).1
  | begin | releaseLock => trivial

/-- The invariant of coherent runs. -/
structure CohInv (ls : LineSize) (mem₀ : Addr → Byte) (s : Sys N) : Prop where
  own : OwnInv ls s
  coh : Coh ls s.caches s.mem (flat mem₀ s.trace)
  coherent : Coherent mem₀ s.trace
  ops : ∀ i op, s.ops i = some op → OpOk ls mem₀ i s.trace op (s.caches i)

section Step

variable {mem₀ : Addr → Byte} {s s' : Sys N} {port : Fin N}

/-- What a blocked payload knows is kept while other ports run. -/
theorem OpOk.mono {trace trace' : List (Event N)} {op : Op} {c c' : Cache} (h : OpOk ls mem₀ port trace op c)
    (ht : SinceBegin port trace' trace) (hv : (c'.getLine ls op.addr).valid = op.pending.writeOngoing ∨ op.pending = .cleanUnique)
    (hm : op.pending ∈ [.fetch .makeUnique, .writeclean .makeUnique, Pending.writeback .makeUnique] → op.addr ∈ c.monitor →
      op.addr ∈ c'.monitor) : OpOk ls mem₀ port trace' op c' where
  progress := h.progress.mono ht rfl rfl
  slot := hv
  make hmk := ⟨(h.make hmk).1, (h.make hmk).2.1, (h.make hmk).2.2.1, fun hex => hm hmk ((h.make hmk).2.2.2 hex)⟩
  clean := h.clean

/-- A snoop leaves a blocked payload what it knows: the cache does not answer while it writes. -/
theorem OpOk.snoopAnswer {trace trace' : List (Event N)} {op : Op} {c : Cache} (h : OpOk ls mem₀ port trace op c)
    (ht : SinceBegin port trace' trace) (hw : op.pending.writeOngoing = false) (ac : AC) (a : Addr) (sec : Bool) :
    OpOk ls mem₀ port trace' op (snoopAnswer ls ac a sec c).1 := by
  have hslot : op.pending ≠ .cleanUnique → (c.getLine ls op.addr).valid = false := fun hne => by
    rcases h.slot with hs | hs
    · rw [hs, hw]
    · exact absurd hs hne
  refine h.mono ht ?_ fun hmk hm => ?_
  · by_cases hcu : op.pending = .cleanUnique
    · exact .inr hcu
    · left
      have hk := (snoopAnswer_keeps ls c ac a sec (c.lineIndex ls op.addr)).2.2.2
      rw [hw, getLine, snoopAnswer_lineIndex, ← Bool.not_eq_true]
      exact fun hv => by rw [show c.lines (c.lineIndex ls op.addr) = c.getLine ls op.addr from rfl, hslot hcu] at hk; exact absurd (hk hv) (by simp)
  · -- a snoop that resets the monitor for the address would have hit the line, which is free
    have hne : op.pending ≠ .cleanUnique := by
      rintro hcu
      rw [hcu] at hmk
      simp at hmk
    rw [snoopAnswer_monitor]
    split
    · rename_i hin
      refine List.mem_filter.2 ⟨hm, decide_eq_true fun hop => ?_⟩
      obtain ⟨hv, -⟩ := (inCache_eq_true ls c).1 hin.1
      rw [← hop, hslot hne] at hv
      cases hv
    · exact hm

/-- The invariant after the cache of a port has run on. -/
theorem CohInv.setLocal {l : Local N} {s₁ : Sys N} (hown : OwnInv ls (s₁.setLocal port l))
    (hl : LocalOk ls mem₀ s₁.caches s₁.mem port s₁.trace l)
    (hops : ∀ i op, i ≠ port → s₁.ops i = some op → OpOk ls mem₀ i s₁.trace op (s₁.caches i)) :
    CohInv ls mem₀ (s₁.setLocal port l) where
  own := hown
  coh := hl.coh
  coherent := hl.coherent
  ops := Sys.forall_setLocal (P := fun i op c => OpOk ls mem₀ i l.trace op c) hl.op fun i op hi hop =>
    have h := hops i op hi hop
    h.mono (hl.since i) h.slot fun _ hm => hm

/-- After a line request that was carried out the other ports still know what they knew. -/
theorem CohInv.ops_accept {tr : Transaction} {acc : Accepted N} (h : CohInv ls mem₀ s)
    (hs : Snooped ls s.waiting s.caches s.exmon s.mem port tr acc) (i : Fin N) (op : Op) (hi : i ≠ port)
    (hop : (s.accept port acc).ops i = some op) :
    OpOk ls mem₀ i (s.accept port acc).trace op ((s.accept port acc).caches i) := by
  have hc : (s.accept port acc).caches i = (snoopAnswer ls (snoopOf tr.cmd) tr.address tr.genattr.secure (s.caches i)).1 :=
    hs.others hi
  rw [hc]
  refine (h.ops i op hop).snoopAnswer ?_ ?_ _ _ _
  · simp only [Sys.accept, hs.snooped]
    exact .cons (by simp) (.refl i _)
  · have hidle := hs.idle hi
    have hop' : s.ops i = some op := hop
    simpa [Sys.waiting, hop'] using hidle

/-- A line that was written to the memory is given up: `writeclean` is followed by an `Evict`. -/
theorem afterWriteclean_ok (ls : LineSize) (c : Cache) (addr : Addr) (f : Fetch) {tr : Transaction} (hok : tr.response = .ok) :
    c.afterWriteclean ls addr f tr =
      (c.setLine ls addr { c.getLine ls addr with dirty := false, valid := false }, .fetch f) := by
  have hdirty : ((c.setLine ls addr { c.getLine ls addr with dirty := false }).getLine ls addr).dirty = false := by
    rw [getLine_setLine_self]
  rw [afterWriteclean, writeclean, if_pos hok]
  dsimp only
  rw [hdirty, if_neg Bool.false_ne_true, evict, getLine_setLine_self, setLine_setLine]

/-- What a cache does after a write: its line is gone, and the fetch comes next. -/
theorem resume_write (ls : LineSize) (port : Fin N) (c : Cache) (trace : List (Event N)) {op : Op} {f : Fetch}
    {tr : Transaction} (hw : op.pending = .writeclean f ∨ op.pending = .writeback f) (hok : tr.response = .ok) :
    ∃ done : CacheLine, done.valid = false ∧
      resume ls port c trace op tr = ⟨c.setLine ls op.addr done, trace, some { op with pending := .fetch f }⟩ := by
  rcases hw with hp | hp
  · refine ⟨{ c.getLine ls op.addr with dirty := false, valid := false }, rfl, ?_⟩
    simp only [resume, hp, afterWriteclean_ok ls c op.addr f hok]
  · refine ⟨{ c.getLine ls op.addr with valid := false }, rfl, ?_⟩
    simp only [resume, hp, afterWriteback, writeback, if_pos hok]

/-- The line a write is sent for goes to the memory, and the cache goes on to its fetch. -/
theorem CohInv.step_write {order : List (Fin N)} {op : Op} {acc : Accepted N} {f : Fetch}
    (h : CohInv ls mem₀ s) (hop : s.ops port = some op) (hw : op.pending = .writeclean f ∨ op.pending = .writeback f)
    (hacc : bTransport ls s.waiting order s.caches s.exmon s.mem port (op.transaction ls port (s.caches port)) = some acc)
    (hown : OwnInv ls ((s.accept port acc).setLocal port (resume ls port (acc.caches port) (s.accept port acc).trace op acc.tr))) :
    CohInv ls mem₀ ((s.accept port acc).setLocal port (resume ls port (acc.caches port) (s.accept port acc).trace op acc.tr)) := by
  have hopok := h.ops port op hop
  have hcmd : (op.transaction ls port (s.caches port)).cmd = .write .writeBack ∨
      (op.transaction ls port (s.caches port)).cmd = .write .writeClean := by
    rcases hw with hp | hp <;> simp [Op.transaction, hp]
  have hbe : (op.transaction ls port (s.caches port)).byteEnable = [] := by
    rcases hw with hp | hp <;> simp [Op.transaction, hp]
  have hmem : writeAt s.mem (op.transaction ls port (s.caches port)).address (op.transaction ls port (s.caches port)).dataLength
      (op.transaction ls port (s.caches port)).data =
      writeAt s.mem ((s.caches port).getLine ls op.addr).tag ls.size ((s.caches port).getLine ls op.addr).data := by
    rcases hw with hp | hp <;> simp [Op.transaction, hp]
  have hvalid : ((s.caches port).getLine ls op.addr).valid = true := by
    rcases hopok.slot with hs | hs
    · rcases hw with hp | hp <;> rw [hs, hp] <;> rfl
    · rcases hw with hp | hp <;> rw [hp] at hs <;> cases hs
  obtain rfl := bTransport_write hcmd hbe hacc
  have hok : ({ op.transaction ls port (s.caches port) with response := .ok } : Transaction).response = .ok := rfl
  obtain ⟨done, hdone, hres⟩ := resume_write ls port (s.caches port) s.trace hw hok
  simp only [Sys.accept] at hown ⊢
  rw [hres] at hown ⊢
  obtain ⟨hcoh, hline⟩ := h.coh.writeMem (x := (s.caches port).lineIndex ls op.addr) hvalid
  refine .setLocal hown ⟨?_, h.coherent, fun op' hop' => ?_, fun i => .refl i _⟩ fun i op' _ hop' => h.ops i op' hop'
  · show Coh ls (Function.update s.caches port ((s.caches port).setLine ls op.addr done)) _ (flat mem₀ s.trace)
    dsimp only
    rw [hmem]
    exact hcoh.setLine_clean (fun hv => by rw [hdone] at hv; cases hv) hline
  · obtain rfl := Option.some.inj hop'
    refine ⟨hopok.progress, .inl ?_, fun hmk => hopok.make ?_, fun hcu => Pending.noConfusion hcu⟩
    · show (((s.caches port).setLine ls op.addr done).getLine ls op.addr).valid = false
      rw [getLine_setLine_self, hdone]
    · have hf : f = .makeUnique := by simpa using hmk
      rcases hw with hp | hp <;> simp [hp, hf]

/-- **One step keeps the invariant.** -/
theorem CohInv.step {a : Action N} (h : CohInv ls mem₀ s) (hok : s.CoherentStep ls a) (hstep : s.step ls a = some s') :
    CohInv ls mem₀ s' := by
  have hown := h.own.step hok.cleanUniqueProceeds hstep
  cases a with
  | begin port gp =>
    obtain ⟨-, rfl⟩ := Sys.step_begin hstep
    have hcoh : Coh ls (Function.update s.caches port (s.caches port)) s.mem (flat mem₀ (.begin port gp :: s.trace)) := by
      rw [Function.update_eq_self]
      exact h.coh
    have hl : LocalOk ls mem₀ s.caches s.mem port (.begin port gp :: s.trace)
        (runLoop ls port (s.caches port) (.begin port gp :: s.trace) gp 0 false) :=
      runLoop_ok false hcoh (h.coherent.cons (by simp)) (.begin mem₀ port s.trace gp)
    refine ⟨hown, hl.coh, hl.coherent, Sys.forall_setLocal (P := fun i op c => OpOk ls mem₀ i _ op c) hl.op fun i op hi hop => ?_⟩
    have hop' := h.ops i op hop
    have hne : ∀ gp', (Event.begin port gp : Event N) ≠ .begin i gp' := fun gp' he => hi (Event.begin.inj he).1.symm
    exact hop'.mono ((hl.since i).trans (.cons hne (.refl i _))) hop'.slot fun _ hm => hm
  | releaseLock =>
    obtain rfl := Option.some.inj hstep
    exact ⟨hown, h.coh, h.coherent, h.ops⟩
  | exec port order =>
    obtain ⟨op, acc, hop, hacc, rfl⟩ := Sys.step_exec hstep
    have hpass := hok.cleanUniqueProceeds.passMonitor ls hop
    have hopok := h.ops port op hop
    obtain ⟨-, hone, hfull⟩ := hok op hop
    cases hpend : op.pending with
    | writeclean f => exact h.step_write hop (.inl hpend) hacc hown
    | writeback f => exact h.step_write hop (.inr hpend) hacc hown
    | fetch f =>
      have hs := bTransport_lineRequest (Op.lineRequest_fetch hpend) hpass hacc
      have hres : resume ls port (acc.caches port) (s.accept port acc).trace op acc.tr =
          resumeFetch ls port (acc.caches port) (s.accept port acc).trace op f acc.tr := by simp only [resume, hpend]
      have hcmd : (op.transaction ls port (s.caches port)).cmd = f.cmd := by simp only [Op.transaction, hpend]
      have haddr : (op.transaction ls port (s.caches port)).address = ls.getTag op.addr := by simp only [Op.transaction, hpend]
      have hsec : (op.transaction ls port (s.caches port)).genattr.secure = op.gp.getSecure := by
        simp only [Op.transaction, hpend]
      have hslot : ((s.caches port).getLine ls op.addr).valid = false := by
        rcases hopok.slot with hv | hv
        · rw [hv, hpend]
          rfl
        · rw [hpend] at hv
          cases hv
      have hone' := hone f hpend
      simp only [← hsec] at hone'
      have htrace : flat mem₀ (s.accept port acc).trace = flat mem₀ s.trace := by
        simp only [Sys.accept, hs.snooped]
        rfl
      have hcoherent : Coherent mem₀ (s.accept port acc).trace := by
        simp only [Sys.accept, hs.snooped]
        exact h.coherent.cons (by simp)
      have hprog : Progress mem₀ port (s.accept port acc).trace op.gp op.pos := by
        refine hopok.progress.mono ?_ rfl rfl
        simp only [Sys.accept, hs.snooped]
        exact .cons (by simp) (.refl _ _)
      rw [hres] at hown ⊢
      refine .setLocal hown ?_ (h.ops_accept hs)
      by_cases hf : f = .makeUnique
      · subst hf
        obtain ⟨hw, hlt, hlen, hmon⟩ := hopok.make (by simp [hpend])
        have hfill := h.coh.fetchMake hs hcmd haddr hslot hone'
        rw [resumeFetch_makeUnique hs.response (hs.secure.trans hsec) hw hlt (by rw [hs.self]; exact hmon)]
        obtain ⟨hin, hu⟩ := hit_makeUnique ls (acc.caches port) op.addr hs.response
        rw [hs.secure.trans hsec] at hin
        have hst := hfill.storeLine htrace.symm hin hu hlen (hfull hpend)
        have hpos := toWrite_pos ls hlt
        refine (storeLoop_ok _ ?_ hw ?_ (hcoherent.cons (by simp)) ?_).since_trans fun i => .cons (by simp) (.refl i _)
        · omega
        · split
          · exact hst.quietTo_self (quietTo_monitorReset _ _)
          · exact hst
        · exact hprog.store hw
      · have hfill := h.coh.fetchRead hs hf hcmd haddr hslot hone'
        rw [← htrace] at hfill
        exact resumeFetch_ok hfill hcoherent hprog
    | cleanUnique =>
      obtain ⟨ht, hsec⟩ := h.own.fits port op hop hpend
      have hs := bTransport_lineRequest (Op.lineRequest_cleanUnique hpend ht) hpass hacc
      have hres : resume ls port (acc.caches port) (s.accept port acc).trace op acc.tr =
          resumeCleanUnique ls port (acc.caches port) (s.accept port acc).trace op acc.tr := by simp only [resume, hpend]
      have hclean : Coh ls (Function.update acc.caches port ((acc.caches port).afterCleanUnique ls op.addr acc.tr)) acc.mem
          (flat mem₀ s.trace) := h.coh.cleanUnique hs (by simp only [Op.transaction, hpend])
        (by simp only [Op.transaction, hpend]; rfl) (by simp only [Op.transaction, hpend]; exact ht) ht
        (by simp only [Op.transaction, hpend]; exact hsec)
      have htrace : (s.accept port acc).trace = .snoop port (snoopOf (op.transaction ls port (s.caches port)).cmd) acc.tr.address ::
          s.trace := by simp only [Sys.accept, hs.snooped]
      rw [hres] at hown ⊢
      refine .setLocal hown (resumeCleanUnique_ok ?_ ?_ ?_ (hopok.clean hpend)) (h.ops_accept hs)
      · rw [htrace]
        exact hclean
      · rw [htrace]
        exact h.coherent.cons (by simp)
      · rw [htrace]
        exact hopok.progress.mono (.cons (by simp) (.refl _ _)) rfl rfl

end Step

/-- At reset no line is valid and nothing was sent: the memory is the flat memory. -/
theorem CohInv.init (cacheSz : Fin N → ℕ) (buffers : Fin N → ℕ → ℕ → Byte) (mem₀ : Addr → Byte) :
    CohInv ls mem₀ (Sys.init cacheSz buffers mem₀) where
  own := .init cacheSz buffers mem₀
  coh := by
    have hown : OwnInv ls (Sys.init cacheSz buffers mem₀) := .init cacheSz buffers mem₀
    have hinv : ∀ {i x}, ((Sys.init cacheSz buffers mem₀).caches i |>.lines x).valid ≠ true := Bool.false_ne_true
    exact ⟨hown.owned, hown.shape, fun _ _ _ _ hv _ _ => absurd hv hinv, fun hv _ _ => absurd hv hinv, fun _ => rfl⟩
  coherent port gp t ht := by
    have hnil := List.suffix_nil.1 ht
    cases hnil
  ops i op hop := by cases hop

/-- **The caches and the memory are one coherent memory**: whatever a load returns for an enabled byte
is the most recent store to it, at a moment between its begin and its return, and a store has stored
its enabled bytes and no other, at every state reached by steps that meet `CoherentStep`. -/
theorem coherent_of_reach {cacheSz : Fin N → ℕ} {buffers : Fin N → ℕ → ℕ → Byte} {mem₀ : Addr → Byte} {s : Sys N}
    (h : Reach (Sys.step ls) (Sys.CoherentStep ls) (Sys.init cacheSz buffers mem₀) s) : Coherent mem₀ s.trace :=
  (h.invariant (I := CohInv ls mem₀) (.init cacheSz buffers mem₀) fun hi hok hs => hi.step hok hs).coherent

/-- A step that carries out the first transaction after reset meets the condition, if the payload is not
exclusive and has no byte disabled. -/
theorem Sys.CoherentStep.first {cacheSz : Fin N → ℕ} {buffers : Fin N → ℕ → ℕ → Byte} {mem₀ : Addr → Byte} {s : Sys N}
    {port : Fin N} {order : List (Fin N)} {gp : Payload} (hex : gp.isExclusive = false) (hbe : ∀ i, gp.enabled i = true)
    (hs : (Sys.init cacheSz buffers mem₀).step ls (.begin port gp) = some s) : s.CoherentStep ls (.exec port order) := by
  obtain ⟨-, rfl⟩ := Sys.step_begin hs
  intro op hop
  simp only [Sys.setLocal, Function.update_self] at hop
  obtain ⟨-, -, he, -, hx, -⟩ := request_fields (runLoop_request ls port _ _ _ _ _ hop)
  refine ⟨fun _ hx' => ?_, fun f _ i hi x hv => ?_, fun _ i _ => ?_⟩
  · rw [hx, hex] at hx'
    cases hx'
  · simp only [Sys.setLocal, Function.update_of_ne hi] at hv
    cases hv
  · rw [he]
    exact hbe _

/-- A store of a whole line, and a load of a part of it. -/
def storeLoad : List (Action 2) :=
  let store : Payload := { write := true, address := 0x1000, dataLength := 64, data := fun _ => 0xa5 }
  [.begin 0 store, .exec 0 [1], .begin 0 { store with write := false, address := 0x1008, dataLength := 4 }]

/-- The trace of that run is coherent. -/
theorem coherent_storeLoad : ∃ s : Sys 2,
    run (Sys.step .default) (Sys.init (fun _ => 4096) (fun _ _ _ => 0) fun _ => 0x11) storeLoad = some s ∧
      Coherent (fun _ => 0x11) s.trace := by
  have hrun : (run (Sys.step .default) (Sys.init (fun _ => 4096) (fun _ _ _ => 0) fun _ => 0x11) storeLoad).isSome := by
    decide +kernel
  obtain ⟨s, hs⟩ := Option.isSome_iff_exists.1 hrun
  refine ⟨s, hs, coherent_of_reach (Reach.refl.of_run ?_ hs)⟩
  refine ⟨trivial, fun s₁ h₁ => ⟨.first rfl (fun i => rfl) h₁, fun s₂ _ => ⟨trivial, fun s₃ _ => trivial⟩⟩⟩

/-- A store of a whole line with every second byte disabled, and a load of the first disabled byte. -/
def sparseStoreLoad : List (Action 1) :=
  let store : Payload := { write := true, address := 0x1000, dataLength := 64, data := fun _ => 0xa5, byteEnable := [0xff, 0] }
  [.begin 0 store, .exec 0 [], .begin 0 { write := false, address := 0x1001, dataLength := 1, data := fun _ => 0 }]

/-- The last event is a load that was returned with a byte the flat memory has had at no moment. -/
def staleReturn (mem₀ : Addr → Byte) (trace : List (Event N)) : Bool :=
  match trace with
  | .ret _ gp :: t =>
    !gp.write && decide (0 < gp.dataLength) && gp.enabled 0 && t.tails.all fun u => decide (gp.data 0 ≠ flat mem₀ u (gp.addrAt 0))
  | _ => false

theorem not_coherent_of_staleReturn {mem₀ : Addr → Byte} {trace : List (Event N)} (h : staleReturn mem₀ trace = true) :
    ¬ Coherent mem₀ trace := by
  intro hc
  unfold staleReturn at h
  split at h
  · rename_i port gp t
    simp only [Bool.and_eq_true, Bool.not_eq_true', decide_eq_true_eq, List.all_eq_true, List.mem_tails] at h
    obtain ⟨⟨⟨hw, hl⟩, he⟩, hstale⟩ := h
    obtain ⟨u, ⟨new, ht, -⟩, hd⟩ := (hc port gp t (List.suffix_refl _)).2.1 hw 0 hl he
    exact hstale u ⟨new, ht.symm⟩ hd
  · cases h

/-- **The `MakeUnique` of a sparse store loses bytes**: the load returns what the line buffer held, the
memory holding `0x11` all along. -/
theorem staleByte : ∃ s : Sys 1,
    Reach (Sys.step .default) anyStep (Sys.init (fun _ => 4096) (fun _ _ _ => 0) fun _ => 0x11) s ∧
      ¬ Coherent (fun _ => 0x11) s.trace := by
  have hrun : (run (Sys.step .default) (Sys.init (fun _ => 4096) (fun _ _ _ => 0) fun _ => 0x11) sparseStoreLoad).any
      (fun s => staleReturn (fun _ => 0x11) s.trace) = true := by
    decide +kernel
  obtain ⟨s, hs, hstale⟩ := (Option.any_eq_true _ _).1 hrun
  exact ⟨s, reach_of_run hs, not_coherent_of_staleReturn hstale⟩

end LibSystemCTLM.Ace
