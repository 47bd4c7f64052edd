import LibSystemCTLM.Ace.Ownership

/-!
# One coherent memory

The caches and the downstream memory together are one flat memory. `flat mem₀ trace` is what that
memory holds after the stores of a trace: at each address the byte of the most recent store that
enabled it, and the initial byte where there was none. `Coh` says how caches and memory make it up:
a valid line has the flat bytes, and the memory has them wherever no line is dirty. Every step
keeps it, under three conditions on the step (`CoherentStep`):

* a `MakeUnique` is sent for a segment whose bytes are all enabled. It is chosen by the length of
  the segment alone and fetches nothing, so a disabled byte of the segment is left to what the
  line buffer happened to hold (`staleByte`);
* a fetch finds the line in no other cache under the other security state, which the snoop would
  miss while the memory is the same;
* an exclusive `CleanUnique` is not refused by the PoS monitor.

What a returned load has read is then the flat memory at a moment between its begin and its
return, byte by byte, and a returned store has put its bytes there (`Coherent`).
-/

namespace LibSystemCTLM.Ace

open Foundation Foundation.Coherence Cache

variable {N : ℕ}

/-! ### The flat memory of a trace -/

/-- The write of a store event. -/
def Event.write? : Event N → Option (Write 64 Byte)
  | .store _ gp pos n =>
    some { addr := gp.addrAt pos, len := n, enabled := fun i => gp.enabled (pos + i), data := fun i => gp.data (pos + i) }
  | _ => none

/-- The memory after the stores of a trace. -/
def flat (mem₀ : Addr → Byte) (trace : List (Event N)) : Addr → Byte := latest mem₀ (trace.filterMap Event.write?)

section Flat

variable (mem₀ : Addr → Byte) (trace : List (Event N)) (port : Fin N) (gp : Payload) (pos n : ℕ)

@[simp] theorem flat_nil : flat mem₀ ([] : List (Event N)) = mem₀ := rfl

@[simp] theorem flat_begin : flat mem₀ (.begin port gp :: trace) = flat mem₀ trace := rfl

@[simp] theorem flat_snoop (ac : AC) (addr : Addr) : flat mem₀ (.snoop port ac addr :: trace) = flat mem₀ trace := rfl

@[simp] theorem flat_load : flat mem₀ (.load port gp pos n :: trace) = flat mem₀ trace := rfl

@[simp] theorem flat_ret : flat mem₀ (.ret port gp :: trace) = flat mem₀ trace := rfl

end Flat

/-! ### Segments -/

section Segments

variable {ls : LineSize} {gp : Payload} {pos : ℕ}

theorem addrAt_add (gp : Payload) (pos i : ℕ) : gp.addrAt (pos + i) = gp.addrAt pos + BitVec.ofNat 64 i := by
  rw [Payload.addrAt, Payload.addrAt, BitVec.ofNat_add, BitVec.add_assoc]

theorem getLineOffset_add_toWrite (ls : LineSize) (gp : Payload) (pos : ℕ) :
    ls.getLineOffset (gp.addrAt pos) + toWrite ls gp pos ≤ ls.size := by
  have h := ls.getLineOffset_lt (gp.addrAt pos)
  unfold toWrite
  omega

theorem toWrite_pos (ls : LineSize) (h : pos < gp.dataLength) : 0 < toWrite ls gp pos := by
  have hl := ls.getLineOffset_lt (gp.addrAt pos)
  unfold toWrite
  omega

theorem toWrite_le (ls : LineSize) (gp : Payload) (pos : ℕ) : toWrite ls gp pos ≤ gp.dataLength - pos := Nat.min_le_left ..

/-- A byte of the segment, by line and offset. -/
theorem addrAt_eq (ls : LineSize) (gp : Payload) (pos i : ℕ) :
    gp.addrAt (pos + i) = ls.getTag (gp.addrAt pos) + BitVec.ofNat 64 (ls.getLineOffset (gp.addrAt pos) + i) := by
  rw [addrAt_add]
  exact add_eq_lineOf_add ls.bits (gp.addrAt pos) i

theorem getTag_add {a : Addr} (ha : ls.getTag a = a) {o : ℕ} (ho : o < ls.size) : ls.getTag (a + BitVec.ofNat 64 o) = a := by
  have h := lineOf_add ls.bits_le a ho
  rw [show lineOf ls.bits a = a from ha] at h
  exact h

theorem getLineOffset_add {a : Addr} (ha : ls.getTag a = a) {o : ℕ} (ho : o < ls.size) :
    ls.getLineOffset (a + BitVec.ofNat 64 o) = o := by
  have h := offsetOf_add ls.bits_le a ho
  rw [show lineOf ls.bits a = a from ha] at h
  exact h

/-- Every byte is its line plus its offset. -/
theorem getTag_add_getLineOffset (ls : LineSize) (x : Addr) : ls.getTag x + BitVec.ofNat 64 (ls.getLineOffset x) = x :=
  lineOf_add_offsetOf ls.bits x

/-- The flat memory after the store of a segment. -/
theorem flat_store (ls : LineSize) (mem₀ : Addr → Byte) (trace : List (Event N)) (port : Fin N) (gp : Payload) (pos : ℕ)
    (x : Addr) :
    flat mem₀ (.store port gp pos (toWrite ls gp pos) :: trace) x =
      if ls.getTag x = ls.getTag (gp.addrAt pos) ∧ ls.getLineOffset (gp.addrAt pos) ≤ ls.getLineOffset x ∧
          ls.getLineOffset x < ls.getLineOffset (gp.addrAt pos) + toWrite ls gp pos ∧
          gp.enabled (pos + (ls.getLineOffset x - ls.getLineOffset (gp.addrAt pos))) = true then
        gp.data (pos + (ls.getLineOffset x - ls.getLineOffset (gp.addrAt pos)))
      else flat mem₀ trace x :=
  Write.apply_of_line ls.bits_le (Write.mk (gp.addrAt pos) (toWrite ls gp pos) (fun i => gp.enabled (pos + i))
    fun i => gp.data (pos + i)) (flat mem₀ trace) (getLineOffset_add_toWrite ls gp pos) x

theorem writeAt_size {a : Addr} (ha : ls.getTag a = a) (mem : Addr → Byte) (d : ℕ → Byte) (x : Addr) :
    writeAt mem a ls.size d x = if ls.getTag x = a then d (ls.getLineOffset x) else mem x :=
  writeAt_line ls.bits_le mem ha d x

end Segments

/-! ### Caches and memory make up the flat memory -/

/-- No line is held under both security states. -/
def OneState (caches : Fin N → Cache) : Prop :=
  ∀ i j x y, ((caches i).lines x).valid = true → ((caches j).lines y).valid = true →
    ((caches i).lines x).tag = ((caches j).lines y).tag → ((caches i).lines x).secure = ((caches j).lines y).secure

/-- `v` is the memory that the caches and the downstream memory make up. -/
structure Coh (ls : LineSize) (caches : Fin N → Cache) (mem v : Addr → Byte) : Prop where
  owned : ∀ a sec, Owned (copies ls caches a sec)
  shape : ∀ i, (caches i).Shape ls
  oneState : OneState caches
  /-- A valid line has the bytes of `v`. -/
  data : ∀ {i x}, ((caches i).lines x).valid = true → ∀ o < ls.size,
    ((caches i).lines x).data o = v (((caches i).lines x).tag + BitVec.ofNat 64 o)
  /-- The memory has the bytes of `v` where no line is dirty. -/
  mem : ∀ {a}, (∀ i y, ((caches i).lines y).valid = true → ((caches i).lines y).dirty = true →
    ((caches i).lines y).tag ≠ ls.getTag a) → mem a = v a

section Coh

variable {ls : LineSize} {caches : Fin N → Cache} {mem v : Addr → Byte} {port : Fin N} {c' : Cache}

/-- A copy in a cache has the bytes of `v`. -/
theorem Coh.getLine_data_add (h : Coh ls caches mem v) {i : Fin N} {a : Addr} {sec : Bool} (hin : (caches i).inCache ls a sec = true)
    {o : ℕ} (ho : o < ls.size) : ((caches i).getLine ls a).data o = v (ls.getTag a + BitVec.ofNat 64 o) := by
  obtain ⟨hv, ht, -⟩ := (inCache_eq_true ls (caches i)).1 hin
  exact (h.data (x := (caches i).lineIndex ls a) hv o ho).trans (congrArg (fun t => v (t + BitVec.ofNat 64 o)) ht)

/-- The lines of the caches after one of them was changed: its own, or those of another cache. -/
theorem forall_update {P : Fin N → Cache → Prop} (hp : P port c') (ho : ∀ i ≠ port, P i (caches i)) (i : Fin N) :
    P i (Function.update caches port c' i) := by
  by_cases hi : i = port
  · subst hi
    rwa [Function.update_self]
  · rw [Function.update_of_ne hi]
    exact ho i hi

/-- The valid lines after a local step of one cache are lines that were valid before it. -/
theorem Cache.LocalTo.lines_update (hl : LocalTo (caches port) c') {i : Fin N} {x : ℕ}
    (hv : ((Function.update caches port c' i).lines x).valid = true) : ((caches i).lines x).valid = true ∧
      ((Function.update caches port c' i).lines x).tag = ((caches i).lines x).tag ∧
      ((Function.update caches port c' i).lines x).secure = ((caches i).lines x).secure := by
  by_cases hi : i = port
  · subst hi
    rw [Function.update_self] at hv ⊢
    exact ⟨(hl.lines x hv).1, (hl.lines x hv).2.1, (hl.lines x hv).2.2.1⟩
  · rw [Function.update_of_ne hi] at hv ⊢
    exact ⟨hv, rfl, rfl⟩

theorem OneState.localTo (h : OneState caches) (hl : LocalTo (caches port) c') :
    OneState (Function.update caches port c') := by
  intro i j x y hi hj ht
  obtain ⟨vi, ti, si⟩ := hl.lines_update hi
  obtain ⟨vj, tj, sj⟩ := hl.lines_update hj
  rw [si, sj]
  exact h _ _ _ _ vi vj (ti ▸ tj ▸ ht)

/-- What a cache does on its own to its copies, without writing a byte: the dirty lines it gives up are in the memory. -/
theorem Coh.localTo (h : Coh ls caches mem v) (hl : LocalTo (caches port) c')
    (hdata : ∀ x, (c'.lines x).valid = true → (c'.lines x).data = ((caches port).lines x).data)
    (hdirty : ∀ x, ((caches port).lines x).valid = true → ((caches port).lines x).dirty = true →
      ((c'.lines x).valid = true ∧ (c'.lines x).dirty = true) ∨
        ∀ a, ls.getTag a = ((caches port).lines x).tag → mem a = v a) :
    Coh ls (Function.update caches port c') mem v := by
  refine ⟨fun a sec => (h.owned a sec).localStep (localStep_update ls hl a sec),
    forall_update (P := fun _ c => c.Shape ls) ((h.shape port).localTo hl) fun i _ => h.shape i, h.oneState.localTo hl, ?_, ?_⟩
  · intro i x hi o ho
    obtain ⟨vi, ti, -⟩ := hl.lines_update hi
    have di : ((Function.update caches port c' i).lines x).data = ((caches i).lines x).data := by
      by_cases hip : i = port
      · subst hip
        rw [Function.update_self] at hi ⊢
        exact hdata x hi
      · rw [Function.update_of_ne hip]
    rw [ti, di]
    exact h.data vi o ho
  · intro a hn
    by_cases hm : mem a = v a
    · exact hm
    refine h.mem fun i y hv hd ht => ?_
    by_cases hi : i = port
    · subst hi
      rcases hdirty y hv hd with ⟨hv', hd'⟩ | hw
      · refine hn i y ?_ ?_ ?_
        · rwa [Function.update_self]
        · rwa [Function.update_self]
        · rw [Function.update_self, (hl.lines y hv').2.1, ht]
      · exact hm (hw a ht.symm)
    · refine hn i y ?_ ?_ ?_ <;> rwa [Function.update_of_ne hi]

/-- A step of a cache that keeps every dirty line as it is. -/
structure QuietTo (c c' : Cache) : Prop extends LocalTo c c' where
  data : ∀ x, (c'.lines x).valid = true → (c'.lines x).data = (c.lines x).data
  dirty : ∀ x, (c.lines x).valid = true → (c.lines x).dirty = true → (c'.lines x).valid = true ∧ (c'.lines x).dirty = true

theorem QuietTo.of_lines {c c' : Cache} (hs : c'.cacheSz = c.cacheSz) (hl : c'.lines = c.lines) : QuietTo c c' where
  toLocalTo := .of_lines hs hl
  data x _ := by rw [hl]
  dirty x hv hd := by rw [hl]; exact ⟨hv, hd⟩

theorem QuietTo.refl (c : Cache) : QuietTo c c := .of_lines rfl rfl

theorem QuietTo.trans {c c' c'' : Cache} (h : QuietTo c c') (h' : QuietTo c' c'') : QuietTo c c'' where
  toLocalTo := h.toLocalTo.trans h'.toLocalTo
  data x hv := (h'.data x hv).trans (h.data x (h'.lines x hv).1)
  dirty x hv hd := h'.dirty x (h.dirty x hv hd).1 (h.dirty x hv hd).2

theorem Coh.quietTo (h : Coh ls caches mem v) (hq : QuietTo (caches port) c') :
    Coh ls (Function.update caches port c') mem v :=
  h.localTo hq.toLocalTo hq.data fun x hv hd => .inl (hq.dirty x hv hd)

/-- A quiet step of a cache that has changed already. -/
theorem Coh.quietTo_self {c : Cache} (h : Coh ls (Function.update caches port c) mem v) (hq : QuietTo c c') :
    Coh ls (Function.update caches port c') mem v := by
  have hu : Coh ls (Function.update (Function.update caches port c) port c') mem v :=
    h.quietTo (by rw [Function.update_self]; exact hq)
  rwa [Function.update_idem] at hu

theorem quietTo_monitorReset (c : Cache) (addr : Addr) : QuietTo c (c.monitorReset addr) := .of_lines rfl rfl

theorem quietTo_monitorSet (c : Cache) (addr : Addr) : QuietTo c (c.monitorSet addr) := by
  unfold monitorSet
  split
  · exact .refl c
  · exact .of_lines rfl rfl

theorem quietTo_evict (ls : LineSize) (c : Cache) (addr : Addr) (h : (c.getLine ls addr).dirty = false) :
    QuietTo c (c.evict ls addr) where
  toLocalTo := localTo_evict ls c addr
  data x := by
    simp only [evict, lines_setLine]
    split
    · exact fun h => absurd h (by simp)
    · exact fun _ => rfl
  dirty x hv hd := by
    simp only [evict, lines_setLine]
    split
    · rename_i hx
      subst hx
      rw [show c.lines (c.lineIndex ls addr) = c.getLine ls addr from rfl, h] at hd
      cases hd
    · exact ⟨hv, hd⟩

theorem quietTo_startFetch (ls : LineSize) (c : Cache) (addr : Addr) (f : Fetch) : QuietTo c (c.startFetch ls addr f).1 := by
  simp only [startFetch]
  split
  · split
    · exact .of_lines rfl rfl
    · rename_i hd
      exact quietTo_evict ls c addr (Bool.eq_false_iff.2 hd)
  · exact .refl c

theorem Coh.writeMem (h : Coh ls caches mem v) {i : Fin N} {x : ℕ} (hv : ((caches i).lines x).valid = true) :
    Coh ls caches (writeAt mem ((caches i).lines x).tag ls.size ((caches i).lines x).data) v ∧
      ∀ a, ls.getTag a = ((caches i).lines x).tag →
        writeAt mem ((caches i).lines x).tag ls.size ((caches i).lines x).data a = v a := by
  have ht := (h.shape i x hv).2
  have hline : ∀ a, ls.getTag a = ((caches i).lines x).tag →
      writeAt mem ((caches i).lines x).tag ls.size ((caches i).lines x).data a = v a := by
    intro a ha
    rw [writeAt_size ht, if_pos ha, h.data hv _ (ls.getLineOffset_lt a), ← ha, getTag_add_getLineOffset]
  refine ⟨⟨h.owned, h.shape, h.oneState, h.data, fun {a} hn => ?_⟩, hline⟩
  by_cases ha : ls.getTag a = ((caches i).lines x).tag
  · exact hline a ha
  · rw [writeAt_size ht, if_neg ha]
    exact h.mem hn

/-- Giving up the dirty state of the line of `addr`, or the line, once the memory has it. -/
theorem Coh.setLine_clean (h : Coh ls caches mem v) {addr : Addr} {l : CacheLine}
    (hl : l.valid = true → ((caches port).getLine ls addr).valid = true ∧ l.tag = ((caches port).getLine ls addr).tag ∧
      l.secure = ((caches port).getLine ls addr).secure ∧ l.shared = ((caches port).getLine ls addr).shared ∧ l.dirty = false ∧
      l.data = ((caches port).getLine ls addr).data)
    (hmem : ∀ a, ls.getTag a = ((caches port).getLine ls addr).tag → mem a = v a) :
    Coh ls (Function.update caches port ((caches port).setLine ls addr l)) mem v := by
  refine h.localTo (.setLine ls fun hv => ⟨(hl hv).1, (hl hv).2.1, (hl hv).2.2.1, (hl hv).2.2.2.1, fun hd => ?_⟩)
    (fun x => ?_) (fun x hv hd => ?_)
  · rw [(hl hv).2.2.2.2.1] at hd
    cases hd
  · rw [lines_setLine]
    split
    · rename_i hx
      subst hx
      exact fun hv => (hl hv).2.2.2.2.2
    · exact fun _ => rfl
  · rw [lines_setLine]
    split
    · rename_i hx
      subst hx
      exact .inr hmem
    · exact .inl ⟨hv, hd⟩

/-- **Storing a segment to an unshared line** stores it to the flat memory. -/
theorem Coh.writeLine {mem₀ : Addr → Byte} {trace : List (Event N)} (h : Coh ls caches mem v) (hv : v = flat mem₀ trace)
    {gp : Payload} {pos : ℕ} {sec : Bool} (hin : (caches port).inCache ls (gp.addrAt pos) sec = true)
    (hu : (caches port).isUnique ls (gp.addrAt pos) = true) :
    Coh ls (Function.update caches port ((caches port).writeLine ls gp pos true)) mem
      (flat mem₀ (.store port gp pos (toWrite ls gp pos) :: trace)) := by
  obtain ⟨hval, htag, hsec⟩ := (inCache_eq_true ls (caches port)).1 hin
  have hsh : ((caches port).getLine ls (gp.addrAt pos)).shared = false := by simpa [isUnique] using hu
  have hloc := localTo_writeLine ls (caches port) hu
  set idx := (caches port).lineIndex ls (gp.addrAt pos) with hidx
  have hlines : ∀ x, (((caches port).writeLine ls gp pos true).lines x) =
      if x = idx then { (caches port).getLine ls (gp.addrAt pos) with
        data := fun o =>
          if ls.getLineOffset (gp.addrAt pos) ≤ o ∧ o < ls.getLineOffset (gp.addrAt pos) + toWrite ls gp pos ∧
              gp.enabled (pos + (o - ls.getLineOffset (gp.addrAt pos))) then gp.data (pos + (o - ls.getLineOffset (gp.addrAt pos)))
          else ((caches port).getLine ls (gp.addrAt pos)).data o
        dirty := true } else (caches port).lines x := fun x => lines_setLine ls _ _ _ x
  -- outside the line the flat memory is what it was
  have hflat : ∀ a, ls.getTag a ≠ ls.getTag (gp.addrAt pos) →
      flat mem₀ (.store port gp pos (toWrite ls gp pos) :: trace) a = v a := by
    intro a ha
    rw [flat_store, if_neg fun hh => ha hh.1, hv]
  -- no other valid line has the tag
  have halone : ∀ i x, ((caches i).lines x).valid = true → ((caches i).lines x).tag = ls.getTag (gp.addrAt pos) →
      i = port ∧ x = idx := by
    intro i x hvx htx
    have hs : ((caches i).lines x).secure = sec := by
      rw [← hsec]
      exact h.oneState _ _ _ _ hvx hval (htx.trans htag.symm)
    have hx := (h.shape i x hvx).1
    rw [htx, lineIndex_getTag] at hx
    have hcopy := (h.shape i).copy hvx
    rw [htx, hs, copy_getTag] at hcopy
    by_cases hi : i = port
    · subst hi
      exact ⟨rfl, hx.symm⟩
    · have hn := (h.owned (gp.addrAt pos) sec).alone ((caches port).copy_of_inCache ls hin) hsh hi
      rw [copies, hcopy] at hn
      cases hn
  refine ⟨fun a s => (h.owned a s).localStep (localStep_update ls hloc a s),
    forall_update (P := fun _ c => c.Shape ls) ((h.shape port).localTo hloc) fun i _ => h.shape i, h.oneState.localTo hloc, ?_, ?_⟩
  · intro i x hvx o ho
    have hother : ∀ t : Addr, ls.getTag t = t → t ≠ ls.getTag (gp.addrAt pos) →
        flat mem₀ (.store port gp pos (toWrite ls gp pos) :: trace) (t + BitVec.ofNat 64 o) = v (t + BitVec.ofNat 64 o) := by
      intro t ht hne
      exact hflat _ (by rw [getTag_add ht ho]; exact hne)
    by_cases hi : i = port
    · subst hi
      rw [Function.update_self] at hvx ⊢
      rw [hlines] at hvx ⊢
      split
      · rename_i hx
        simp only [htag]
        rw [flat_store, getTag_add (ls.getTag_getTag _) ho, getLineOffset_add (ls.getTag_getTag _) ho]
        simp only [true_and]
        split
        · rfl
        · rw [← hv, ← htag]
          exact h.data (x := idx) hval o ho
      · rename_i hx
        rw [if_neg hx] at hvx
        rw [hother _ (h.shape i x hvx).2 fun ht => hx (halone i x hvx ht).2]
        exact h.data hvx o ho
    · rw [Function.update_of_ne hi] at hvx ⊢
      rw [hother _ (h.shape i x hvx).2 fun ht => hi (halone i x hvx ht).1]
      exact h.data hvx o ho
  · intro a hn
    have hne : ls.getTag a ≠ ls.getTag (gp.addrAt pos) := by
      intro ha
      refine hn port idx ?_ ?_ ?_ <;> rw [Function.update_self, hlines, if_pos rfl]
      · exact hval
      · exact htag.trans ha.symm
    rw [hflat a hne]
    refine h.mem fun i y hvy hdy hty => ?_
    by_cases hi : i = port
    · subst hi
      have hyx : y ≠ idx := by
        rintro rfl
        exact hne (hty.symm.trans htag)
      refine hn i y ?_ ?_ ?_ <;> rw [Function.update_self, hlines, if_neg hyx] <;> assumption
    · refine hn i y ?_ ?_ ?_ <;> rwa [Function.update_of_ne hi]

/-! ### Fetches -/

section Fetches

variable {waiting : Fin N → Bool} {mon : PosMonitor N} {tr : Transaction} {acc : Accepted N} {addr : Addr} {f : Fetch}

/-- The lines of another cache after a line request: those of other tags are untouched. -/
theorem Snooped.lines_others (hs : Snooped ls waiting caches mon mem port tr acc) {i : Fin N} (hi : i ≠ port) (x : ℕ) :
    ((acc.caches i).lines x).tag = ((caches i).lines x).tag ∧
      ((acc.caches i).lines x).secure = ((caches i).lines x).secure ∧
      ((acc.caches i).lines x).data = ((caches i).lines x).data ∧
      (((acc.caches i).lines x).valid = true → ((caches i).lines x).valid = true) ∧
      (((caches i).lines x).tag ≠ ls.getTag tr.address → (acc.caches i).lines x = (caches i).lines x) := by
  rw [hs.others hi]
  obtain ⟨ht, hsec, hd, hv⟩ := snoopAnswer_keeps ls (caches i) (snoopOf tr.cmd) tr.address tr.genattr.secure x
  refine ⟨ht, hsec, hd, hv, fun hne => ?_⟩
  rw [lines_snoopAnswer, if_neg]
  rintro ⟨hin, rfl⟩
  exact hne ((inCache_eq_true ls (caches i)).1 hin).2.1

theorem Cache.Shape.inCache {c : Cache} (h : c.Shape ls) {x : ℕ} (hv : (c.lines x).valid = true) {a : Addr} {sec : Bool}
    (ht : (c.lines x).tag = ls.getTag a) (hsec : (c.lines x).secure = sec) :
    c.inCache ls a sec = true ∧ c.getLine ls a = c.lines x := by
  have hx := (h x hv).1
  rw [ht, lineIndex_getTag] at hx
  have hl : c.getLine ls a = c.lines x := by rw [getLine, hx]
  exact ⟨(inCache_eq_true ls c).2 (by rw [hl]; exact ⟨hv, ht, hsec⟩), hl⟩

/-- The lines of a cache whose line of `addr` was filled. -/
theorem lines_fillLine (c : Cache) (hok : tr.response = .ok) (x : ℕ) :
    (c.fillLine ls addr f tr).lines x =
      if x = c.lineIndex ls addr then
        { valid := true, tag := ls.getTag addr, shared := if f = .makeUnique then false else tr.genattr.shared
          dirty := if f = .makeUnique then true else tr.genattr.dirty, data := tr.data, secure := tr.genattr.secure }
      else c.lines x := by
  rw [fillLine, if_pos hok, lines_setLine]

theorem lineIndex_fillLine (c : Cache) (a : Addr) : (c.fillLine ls addr f tr).lineIndex ls a = c.lineIndex ls a := by
  rw [fillLine]
  split <;> rfl

@[simp] theorem monitor_fillLine (c : Cache) (a : Addr) : (c.fillLine ls a f tr).monitor = c.monitor := by
  rw [fillLine]
  split <;> rfl

/-- A line that a `MakeUnique` brought in is hit by the store, and unshared. -/
theorem hit_makeUnique (ls : LineSize) (c : Cache) (addr : Addr) (hok : tr.response = .ok) :
    (c.fillLine ls addr .makeUnique tr).inCache ls addr tr.genattr.secure = true ∧
      (c.fillLine ls addr .makeUnique tr).isUnique ls addr = true := by
  have hl : (c.fillLine ls addr .makeUnique tr).lines (c.lineIndex ls addr) = _ := lines_fillLine c hok _
  rw [if_pos rfl] at hl
  rw [inCache_eq_true, isUnique, getLine, lineIndex_fillLine, hl]
  exact ⟨⟨rfl, rfl, rfl⟩, rfl⟩

/-- A line request keeps the shape of the caches. -/
theorem Snooped.shape (hs : Snooped ls waiting caches mon mem port tr acc) (hshape : ∀ i, (caches i).Shape ls)
    (hc : c'.Shape ls) (i : Fin N) : (Function.update acc.caches port c' i).Shape ls := by
  refine forall_update (P := fun _ c => c.Shape ls) hc (fun i hi => ?_) i
  rw [hs.others hi]
  exact (hshape i).snoopAnswer _ _ _

theorem Snooped.shape_fill (hs : Snooped ls waiting caches mon mem port tr acc) (hshape : ∀ i, (caches i).Shape ls) (i : Fin N) :
    (Function.update acc.caches port ((acc.caches port).fillLine ls addr f acc.tr) i).Shape ls := by
  refine hs.shape hshape ?_ i
  rw [hs.self]
  exact (hshape port).fillLine hs.response

theorem Snooped.shape_cleanUnique (hs : Snooped ls waiting caches mon mem port tr acc) (hshape : ∀ i, (caches i).Shape ls)
    (htag : ((caches port).getLine ls addr).tag = ls.getTag addr) (i : Fin N) :
    (Function.update acc.caches port ((acc.caches port).afterCleanUnique ls addr acc.tr) i).Shape ls := by
  refine hs.shape hshape ?_ i
  rw [hs.self]
  exact (hshape port).afterCleanUnique htag

/-- The lines after a fetch: a valid one is the line that was filled, or it was valid before. -/
theorem Snooped.lines_fill (hs : Snooped ls waiting caches mon mem port tr acc) (hshape : (caches port).Shape ls) {i : Fin N} {x : ℕ}
    (hv : ((Function.update acc.caches port ((acc.caches port).fillLine ls addr f acc.tr) i).lines x).valid = true) :
    (i = port ∧ x = (caches port).lineIndex ls addr) ∨ (((caches i).lines x).valid = true ∧
      ((Function.update acc.caches port ((acc.caches port).fillLine ls addr f acc.tr) i).lines x).tag = ((caches i).lines x).tag ∧
      ((Function.update acc.caches port ((acc.caches port).fillLine ls addr f acc.tr) i).lines x).secure = ((caches i).lines x).secure ∧
      ((Function.update acc.caches port ((acc.caches port).fillLine ls addr f acc.tr) i).lines x).data = ((caches i).lines x).data ∧
      (((caches i).lines x).tag = ls.getTag addr → i ≠ port)) := by
  by_cases hi : i = port
  · subst hi
    rw [Function.update_self, lines_fillLine _ hs.response, hs.self] at hv
    by_cases hx : x = (caches i).lineIndex ls addr
    · exact .inl ⟨rfl, hx⟩
    · rw [if_neg hx] at hv
      rw [Function.update_self, lines_fillLine _ hs.response, hs.self, if_neg hx]
      refine .inr ⟨hv, rfl, rfl, rfl, fun ht => absurd ?_ hx⟩
      have hxi := (hshape x hv).1
      rw [ht, lineIndex_getTag] at hxi
      exact hxi.symm
  · rw [Function.update_of_ne hi] at hv ⊢
    obtain ⟨ht, hsec, hd, hvv, -⟩ := hs.lines_others hi x
    exact .inr ⟨hvv hv, ht, hsec, hd, fun _ => hi⟩

theorem Snooped.line_fill (hs : Snooped ls waiting caches mon mem port tr acc) :
    (Function.update acc.caches port ((acc.caches port).fillLine ls addr f acc.tr) port).lines ((caches port).lineIndex ls addr) =
      { valid := true, tag := ls.getTag addr, shared := if f = .makeUnique then false else acc.tr.genattr.shared
        dirty := if f = .makeUnique then true else acc.tr.genattr.dirty, data := acc.tr.data, secure := tr.genattr.secure } := by
  rw [Function.update_self, lines_fillLine _ hs.response, hs.self, hs.secure, if_pos rfl]

/-- A fetch that finds the line in no other cache under the other security state. -/
theorem OneState.fill (h : OneState caches) (hs : Snooped ls waiting caches mon mem port tr acc) (hshape : (caches port).Shape ls)
    (hone : ∀ i ≠ port, ∀ x, ((caches i).lines x).valid = true → ((caches i).lines x).tag = ls.getTag addr →
      ((caches i).lines x).secure = tr.genattr.secure) :
    OneState (Function.update acc.caches port ((acc.caches port).fillLine ls addr f acc.tr)) := by
  intro i j x y hvi hvj ht
  rcases hs.lines_fill hshape hvi with ⟨rfl, rfl⟩ | ⟨vi, ti, si, -, ni⟩
  · rcases hs.lines_fill hshape hvj with ⟨rfl, rfl⟩ | ⟨vj, tj, sj, -, nj⟩
    · rfl
    · rw [hs.line_fill] at ht ⊢
      have hta := tj.symm.trans ht.symm
      rw [sj]
      exact (hone j (nj hta) y vj hta).symm
  · rcases hs.lines_fill hshape hvj with ⟨rfl, rfl⟩ | ⟨vj, tj, sj, -, -⟩
    · rw [hs.line_fill] at ht ⊢
      have hta := ti.symm.trans ht
      rw [si]
      exact hone i (ni hta) x vi hta
    · rw [si, sj]
      exact h _ _ _ _ vi vj (ti ▸ tj ▸ ht)

/-- **A fetch makes up `v'`**, which differs from `v` in the line fetched only. -/
theorem Coh.fill {v' : Addr → Byte} (h : Coh ls caches mem v) (hs : Snooped ls waiting caches mon mem port tr acc)
    (hcmd : tr.cmd = f.cmd) (haddr : tr.address = ls.getTag addr) (hslot : ((caches port).getLine ls addr).valid = false)
    (hone : ∀ i ≠ port, ∀ x, ((caches i).lines x).valid = true → ((caches i).lines x).tag = ls.getTag addr →
      ((caches i).lines x).secure = tr.genattr.secure)
    (hout : ∀ a, ls.getTag a ≠ ls.getTag addr → v' a = v a)
    (hoth : ∀ i ≠ port, ∀ x, ((acc.caches i).lines x).valid = true → ((acc.caches i).lines x).tag = ls.getTag addr →
      ∀ o < ls.size, ((acc.caches i).lines x).data o = v' (ls.getTag addr + BitVec.ofNat 64 o))
    (hl : ∀ o < ls.size, acc.tr.data o = v' (ls.getTag addr + BitVec.ofNat 64 o))
    (hmem : (∀ i y, ((Function.update acc.caches port ((acc.caches port).fillLine ls addr f acc.tr) i).lines y).valid = true →
        ((Function.update acc.caches port ((acc.caches port).fillLine ls addr f acc.tr) i).lines y).dirty = true →
        ((Function.update acc.caches port ((acc.caches port).fillLine ls addr f acc.tr) i).lines y).tag ≠ ls.getTag addr) →
      ∀ a, ls.getTag a = ls.getTag addr → acc.mem a = v' a)
    (hmemo : ∀ a, ls.getTag a ≠ ls.getTag addr → acc.mem a = mem a) :
    Coh ls (Function.update acc.caches port ((acc.caches port).fillLine ls addr f acc.tr)) acc.mem v' := by
  have htag : ls.getTag tr.address = ls.getTag addr := by rw [haddr, LineSize.getTag_getTag]
  have hself := hs.self
  set idx := (caches port).lineIndex ls addr with hidx
  have hport : ∀ x, ((acc.caches port).fillLine ls addr f acc.tr).lines x =
      if x = idx then
        { valid := true, tag := ls.getTag addr, shared := if f = .makeUnique then false else acc.tr.genattr.shared
          dirty := if f = .makeUnique then true else acc.tr.genattr.dirty, data := acc.tr.data, secure := tr.genattr.secure }
      else (caches port).lines x := fun x => by
    rw [lines_fillLine _ hs.response, hself, hs.secure]
  refine ⟨hs.owned_fetch addr hcmd haddr (.refl _) h.owned, hs.shape_fill h.shape, h.oneState.fill hs (h.shape port) hone, ?_, ?_⟩
  · intro i x hv o ho
    rcases hs.lines_fill (h.shape port) hv with ⟨rfl, rfl⟩ | ⟨vi, ti, -, di, ni⟩
    · rw [hs.line_fill]
      exact hl o ho
    · by_cases hta : ((caches i).lines x).tag = ls.getTag addr
      · have hi := ni hta
        rw [Function.update_of_ne hi] at hv ti ⊢
        rw [hoth i hi x hv (ti.trans hta) o ho, ti, hta]
      · have htt := (h.shape i x vi).2
        rw [ti, di, hout _ (by rw [getTag_add htt ho]; exact hta)]
        exact h.data vi o ho
  · intro a hn
    by_cases ha : ls.getTag a = ls.getTag addr
    · exact hmem (fun i y hv hd ht => hn i y hv hd (ht.trans ha.symm)) a ha
    · rw [hmemo a ha, hout a ha]
      refine h.mem fun i y hv hd ht => ?_
      have hta : ((caches i).lines y).tag ≠ ls.getTag addr := fun hh => ha (ht.symm.trans hh)
      have hline : (Function.update acc.caches port ((acc.caches port).fillLine ls addr f acc.tr) i).lines y =
          (caches i).lines y := by
        by_cases hi : i = port
        · subst hi
          have hy : y ≠ idx := by
            rintro rfl
            rw [show (caches i).lines idx = (caches i).getLine ls addr from rfl, hslot] at hv
            cases hv
          rw [Function.update_self, hport, if_neg hy]
        · rw [Function.update_of_ne hi]
          exact (hs.lines_others hi y).2.2.2.2 (by rw [htag]; exact hta)
      exact hn i y (by rw [hline]; exact hv) (by rw [hline]; exact hd) (by rw [hline]; exact ht)

/-- **A fetch that reads brings in the flat bytes.** -/
theorem Coh.fetchRead (h : Coh ls caches mem v) (hs : Snooped ls waiting caches mon mem port tr acc) (hf : f ≠ .makeUnique)
    (hcmd : tr.cmd = f.cmd) (haddr : tr.address = ls.getTag addr) (hslot : ((caches port).getLine ls addr).valid = false)
    (hone : ∀ i ≠ port, ∀ x, ((caches i).lines x).valid = true → ((caches i).lines x).tag = ls.getTag addr →
      ((caches i).lines x).secure = tr.genattr.secure) :
    Coh ls (Function.update acc.caches port ((acc.caches port).fillLine ls addr f acc.tr)) acc.mem v := by
  have hallow : tr.allowPassDirty = true := by
    cases f <;> simp_all [Fetch.cmd, Transaction.allowPassDirty, allowPassDirtySnoop]
  have hread : (snoopOf tr.cmd).isReadSnoop = true := by
    cases f <;> simp_all [Fetch.cmd, snoopOf, AC.isReadSnoop]
  have hmem : acc.mem = mem := hs.memKeep (.inl hallow)
  have haligned : ls.getTag tr.address = tr.address := by rw [haddr, LineSize.getTag_getTag]
  have htag : ls.getTag tr.address = ls.getTag addr := haligned.trans haddr
  -- a valid line of another cache with the tag is hit
  have hhit : ∀ i ≠ port, ∀ x, ((caches i).lines x).valid = true → ((caches i).lines x).tag = ls.getTag addr →
      (caches i).inCache ls tr.address tr.genattr.secure = true ∧ (caches i).getLine ls tr.address = (caches i).lines x :=
    fun i hi x hv ht => (h.shape i).inCache hv (ht.trans htag.symm) (hone i hi x hv ht)
  have hdataOf : ∀ i ≠ port, (caches i).inCache ls tr.address tr.genattr.secure = true → ∀ o < ls.size,
      ((caches i).getLine ls tr.address).data o = v (ls.getTag addr + BitVec.ofNat 64 o) := fun i _ hin o ho =>
    htag ▸ h.getLine_data_add hin ho
  -- no line of the requester has the tag
  have hown : ∀ x, ((caches port).lines x).valid = true → ((caches port).lines x).tag ≠ ls.getTag addr := by
    intro x hv ht
    have hx := (h.shape port x hv).1
    rw [ht, lineIndex_getTag] at hx
    rw [getLine, hx, hv] at hslot
    cases hslot
  refine h.fill hs hcmd haddr hslot hone (fun _ _ => rfl) ?_ ?_ ?_ (fun a _ => by rw [hmem])
  · intro i hi x hv ht o ho
    obtain ⟨ht', -, hd, hvv, -⟩ := hs.lines_others hi x
    rw [hd, h.data (hvv hv) o ho, ← ht', ht]
  · by_cases hex : ∃ i ≠ port, (caches i).inCache ls tr.address tr.genattr.secure = true
    · exact hs.dataHit hread hdataOf hex
    · have hnone : ∀ i ≠ port, (caches i).copy ls tr.address tr.genattr.secure = none := fun i hi =>
        ((caches i).copy_eq_none ls).2 (Bool.eq_false_iff.2 fun hin => hex ⟨i, hi, hin⟩)
      intro o ho
      rw [hs.dataMiss hread hnone o ho, haddr]
      refine h.mem fun i y hv _ ht => ?_
      rw [getTag_add (ls.getTag_getTag addr) ho] at ht
      by_cases hi : i = port
      · subst hi
        exact hown y hv ht
      · exact hex ⟨i, hi, (hhit i hi y hv ht).1⟩
  · intro hn a ha
    rw [hmem]
    refine h.mem fun i y hv hd ht => ?_
    rw [ha] at ht
    by_cases hi : i = port
    · subst hi
      exact hown y hv ht
    · obtain ⟨hin, hl⟩ := hhit i hi y hv ht
      have hcopy : (caches i).copy ls tr.address tr.genattr.secure = some ⟨((caches i).lines y).shared, true⟩ := by
        rw [(caches i).copy_of_inCache ls hin, hl, hd]
      -- a dirty copy is passed to the requester, or kept by a `ReadNotSharedDirty`
      have hpass : (snoopOf tr.cmd).passes ⟨((caches i).lines y).shared, true⟩ = true → False := by
        intro hp
        have hdirty : acc.tr.genattr.dirty = true := hs.dirty.2 ⟨hallow, i, hi, _, hcopy, hp⟩
        refine hn port ((caches port).lineIndex ls addr) ?_ ?_ ?_ <;>
          rw [Function.update_self, lines_fillLine _ hs.response, hs.self, if_pos rfl]
        simp only [if_neg hf]
        exact hdirty
      cases f with
      | readShared | readUnique => exact hpass (by rw [hcmd]; rfl)
      | makeUnique => exact hf rfl
      | readNotSharedDirty =>
        have hkeep : (acc.caches i).lines y = { (caches i).lines y with shared := true } := by
          have hyi := (h.shape i y hv).1
          rw [ht, lineIndex_getTag] at hyi
          rw [hs.others hi, lines_snoopAnswer, hcmd, if_pos]
          · rfl
          · refine ⟨hin, ?_⟩
            rw [haddr, lineIndex_getTag]
            exact hyi.symm
        refine hn i y ?_ ?_ ?_ <;> rw [Function.update_of_ne hi, hkeep] <;> assumption

/-- **A `MakeUnique` brings in a line of unknown bytes**: those the line buffer held. -/
theorem Coh.fetchMake (h : Coh ls caches mem v) (hs : Snooped ls waiting caches mon mem port tr acc)
    (hcmd : tr.cmd = Fetch.makeUnique.cmd) (haddr : tr.address = ls.getTag addr)
    (hslot : ((caches port).getLine ls addr).valid = false)
    (hone : ∀ i ≠ port, ∀ x, ((caches i).lines x).valid = true → ((caches i).lines x).tag = ls.getTag addr →
      ((caches i).lines x).secure = tr.genattr.secure) :
    Coh ls (Function.update acc.caches port ((acc.caches port).fillLine ls addr .makeUnique acc.tr)) acc.mem
      (writeAt v (ls.getTag addr) ls.size acc.tr.data) := by
  have hac : snoopOf tr.cmd = .makeInvalid := by rw [hcmd]; rfl
  have hmem : acc.mem = mem := hs.memKeep (.inr fun i _ x _ => by rw [hac]; rfl)
  have htag : ls.getTag tr.address = ls.getTag addr := by rw [haddr, LineSize.getTag_getTag]
  refine h.fill hs hcmd haddr hslot hone (fun a ha => ?_) ?_ ?_ ?_ (fun a _ => by rw [hmem])
  · rw [writeAt_size (ls.getTag_getTag addr), if_neg ha]
  · -- every other copy of the line is gone
    intro i hi x hv ht
    obtain ⟨ht', -, -, hvv, -⟩ := hs.lines_others hi x
    obtain ⟨hin, -⟩ := (h.shape i).inCache (hvv hv) ((ht'.symm.trans ht).trans htag.symm)
      (hone i hi x (hvv hv) (ht'.symm.trans ht))
    have hx := (h.shape i x (hvv hv)).1
    rw [ht'.symm.trans ht, lineIndex_getTag] at hx
    rw [hs.others hi, lines_snoopAnswer, hac, if_pos ⟨hin, by rw [haddr, lineIndex_getTag]; exact hx.symm⟩] at hv
    cases hv
  · intro o ho
    rw [writeAt_size (ls.getTag_getTag addr), getTag_add (ls.getTag_getTag addr) ho, if_pos rfl,
      getLineOffset_add (ls.getTag_getTag addr) ho]
  · intro hn
    refine absurd ?_ (hn port ((caches port).lineIndex ls addr) ?_ ?_) <;>
      rw [Function.update_self, lines_fillLine _ hs.response, hs.self, if_pos rfl]
    rfl

/-- The lines of a cache after its `CleanUnique`: the line is unshared, if it is still there. -/
theorem lines_afterCleanUnique (c : Cache) (hok : tr.response = .ok) (x : ℕ) :
    (c.afterCleanUnique ls addr tr).lines x =
      if x = c.lineIndex ls addr ∧ (c.lines x).valid = true then { c.lines x with shared := false } else c.lines x := by
  rw [afterCleanUnique, if_pos hok]
  by_cases hv : (c.getLine ls addr).valid = true
  · rw [if_pos hv, lines_setLine]
    by_cases hx : x = c.lineIndex ls addr
    · subst hx
      rw [if_pos rfl, if_pos ⟨rfl, hv⟩]
      rfl
    · rw [if_neg hx, if_neg fun hh => hx hh.1]
  · have hif : ¬ (x = c.lineIndex ls addr ∧ (c.lines x).valid = true) := by
      rintro ⟨rfl, hh⟩
      exact hv hh
    rw [if_neg hv, if_neg hif, evict, lines_setLine, lineIndex_setLine, getLine_setLine_self, lines_setLine]
    split
    · -- the line was invalid, and the `Evict` leaves it so
      rename_i hx
      subst hx
      rw [Bool.not_eq_true] at hv
      rw [← hv]
      rfl
    · rfl

/-- The lines after a `CleanUnique`: a valid one was valid before. -/
theorem Snooped.lines_cleanUnique (hs : Snooped ls waiting caches mon mem port tr acc) {i : Fin N} {x : ℕ}
    (hv : ((Function.update acc.caches port ((acc.caches port).afterCleanUnique ls addr acc.tr) i).lines x).valid = true) :
    ((caches i).lines x).valid = true ∧
      ((Function.update acc.caches port ((acc.caches port).afterCleanUnique ls addr acc.tr) i).lines x).tag = ((caches i).lines x).tag ∧
      ((Function.update acc.caches port ((acc.caches port).afterCleanUnique ls addr acc.tr) i).lines x).secure =
        ((caches i).lines x).secure ∧
      ((Function.update acc.caches port ((acc.caches port).afterCleanUnique ls addr acc.tr) i).lines x).data =
        ((caches i).lines x).data := by
  by_cases hi : i = port
  · subst hi
    rw [Function.update_self, lines_afterCleanUnique _ hs.response, hs.self] at hv ⊢
    split at hv
    · rename_i hx
      rw [if_pos hx]
      exact ⟨hx.2, rfl, rfl, rfl⟩
    · rename_i hx
      rw [if_neg hx]
      exact ⟨hv, rfl, rfl, rfl⟩
  · rw [Function.update_of_ne hi] at hv ⊢
    obtain ⟨ht, hse, hd, hvv, -⟩ := hs.lines_others hi x
    exact ⟨hvv hv, ht, hse, hd⟩

theorem OneState.cleanUnique (h : OneState caches) (hs : Snooped ls waiting caches mon mem port tr acc) :
    OneState (Function.update acc.caches port ((acc.caches port).afterCleanUnique ls addr acc.tr)) := by
  intro i j x y hvi hvj ht
  obtain ⟨vi, ti, si, -⟩ := hs.lines_cleanUnique hvi
  obtain ⟨vj, tj, sj, -⟩ := hs.lines_cleanUnique hvj
  rw [si, sj]
  exact h _ _ _ _ vi vj (ti ▸ tj ▸ ht)

/-- **A `CleanUnique` leaves the flat memory alone**: the dirty data it cleans is written to the memory. -/
theorem Coh.cleanUnique (h : Coh ls caches mem v) (hs : Snooped ls waiting caches mon mem port tr acc)
    (hcmd : tr.cmd = .ignoreRead .cleanUnique) (hallow : tr.allowPassDirty = false) (haddr : tr.address = ls.getTag addr)
    (htag : ((caches port).getLine ls addr).tag = ls.getTag addr)
    (hsec : ((caches port).getLine ls addr).secure = tr.genattr.secure) :
    Coh ls (Function.update acc.caches port ((acc.caches port).afterCleanUnique ls addr acc.tr)) acc.mem v := by
  have hac : snoopOf tr.cmd = .cleanInvalid := by rw [hcmd]; rfl
  have haligned : ls.getTag tr.address = tr.address := by rw [haddr, LineSize.getTag_getTag]
  have htaga : ls.getTag tr.address = ls.getTag addr := haligned.trans haddr
  have hport : ∀ x, ((acc.caches port).afterCleanUnique ls addr acc.tr).lines x =
      if x = (caches port).lineIndex ls addr ∧ ((caches port).lines x).valid = true then
        { (caches port).lines x with shared := false } else (caches port).lines x := fun x => by
    rw [lines_afterCleanUnique _ hs.response, hs.self]
  refine ⟨hs.owned_cleanUnique addr hcmd haddr hsec htag (.refl _) h.owned, hs.shape_cleanUnique h.shape htag,
    h.oneState.cleanUnique hs, ?_, ?_⟩
  · intro i x hv o ho
    obtain ⟨vi, ti, -, di⟩ := hs.lines_cleanUnique hv
    rw [ti, di]
    exact h.data vi o ho
  · intro a hn
    -- a dirty line that no snoop took away is dirty still
    have hold : (∀ i ≠ port, ∀ y, ((caches i).lines y).valid = true → ((caches i).lines y).dirty = true →
        ((caches i).lines y).tag = ls.getTag a → (acc.caches i).lines y = (caches i).lines y) → mem a = v a := by
      intro hkeep
      refine h.mem fun i y hv hd ht => ?_
      by_cases hi : i = port
      · subst hi
        refine hn i y ?_ ?_ ?_ <;> rw [Function.update_self, hport] <;> split <;> assumption
      · have hl := hkeep i hi y hv hd ht
        refine hn i y ?_ ?_ ?_ <;> rw [Function.update_of_ne hi, hl] <;> assumption
    have hdataOf : ∀ i ≠ port, (caches i).inCache ls tr.address tr.genattr.secure = true → ∀ o < ls.size,
        ((caches i).getLine ls tr.address).data o = v (ls.getTag addr + BitVec.ofNat 64 o) := fun i _ hin o ho =>
      htaga ▸ h.getLine_data_add hin ho
    by_cases hex : ∃ i ≠ port, ∃ x, (caches i).copy ls tr.address tr.genattr.secure = some x ∧
        (snoopOf tr.cmd).passes x = true
    · obtain ⟨d, hm, hd⟩ := hs.memWrite hallow hdataOf hex
      rw [hm, writeAt_size haligned]
      split
      · rename_i ha
        rw [hd _ (ls.getLineOffset_lt a), ← haddr, ← ha, getTag_add_getLineOffset]
      · rename_i ha
        refine hold fun i hi y _ _ ht => (hs.lines_others hi y).2.2.2.2 ?_
        rw [ht, haligned]
        exact ha
    · rw [hs.memKeep (.inr fun i hi x hx => Bool.eq_false_iff.2 fun hp => hex ⟨i, hi, x, hx, hp⟩)]
      refine hold fun i hi y hv hd ht => ?_
      -- the snoop hits no dirty copy
      rw [hs.others hi, lines_snoopAnswer, if_neg]
      rintro ⟨hin, rfl⟩
      refine hex ⟨i, hi, _, (caches i).copy_of_inCache ls hin, ?_⟩
      rw [hac]
      have hd' : ((caches i).getLine ls tr.address).dirty = true := hd
      simp [AC.passes, AC.transfers, AC.reportsDirty, hd']

end Fetches

end Coh

end LibSystemCTLM.Ace
