import LibSystemCTLM.Ace.Transact

/-!
# Single writer, multiple readers

At every state reached by loads and stores, a line that one cache holds unshared is held by no
other cache, and at most one cache holds it dirty. What a cache does on its own, between two
transactions, is a local step of `Foundation.Coherence` on every line (`LocalTo`); a transaction
that fetches a line is a fill step on that line and a local step on every other; a `CleanUnique`
is a fill step, or drops every copy when a snoop was faster.

An exclusive `CleanUnique` that the PoS monitor refuses is answered OK without a snoop, and the
cache takes the line for unique all the same. The invariant is therefore carried by the steps
that do not do this (`CleanUniqueProceeds`), among them all steps of non-exclusive payloads.
-/

namespace LibSystemCTLM.Ace

open Foundation Foundation.Coherence

variable {N : ℕ} (ls : LineSize)

/-! ### What a cache does on its own -/

namespace Cache

variable {c c' c'' : Cache}

/-- The cache has dropped, cleaned or written lines of its own: a valid line is the line it was, as
shared as it was, and it became dirty only if it was unshared. -/
structure LocalTo (c c' : Cache) : Prop where
  cacheSz : c'.cacheSz = c.cacheSz
  lines : ∀ x, (c'.lines x).valid = true →
    (c.lines x).valid = true ∧ (c'.lines x).tag = (c.lines x).tag ∧ (c'.lines x).secure = (c.lines x).secure ∧
      (c'.lines x).shared = (c.lines x).shared ∧
      ((c'.lines x).dirty = true → (c.lines x).dirty = true ∨ (c.lines x).shared = false)

theorem LocalTo.of_lines (hs : c'.cacheSz = c.cacheSz) (hl : c'.lines = c.lines) : LocalTo c c' :=
  ⟨hs, fun x hv => by rw [hl] at hv ⊢; exact ⟨hv, rfl, rfl, rfl, .inl⟩⟩

theorem LocalTo.refl (c : Cache) : LocalTo c c := .of_lines rfl rfl

theorem LocalTo.trans (h : LocalTo c c') (h' : LocalTo c' c'') : LocalTo c c'' := by
  refine ⟨h'.cacheSz.trans h.cacheSz, fun x hv => ?_⟩
  obtain ⟨hv', ht', hs', hsh', hd'⟩ := h'.lines x hv
  obtain ⟨hv, ht, hs, hsh, hd⟩ := h.lines x hv'
  refine ⟨hv, ht'.trans ht, hs'.trans hs, hsh'.trans hsh, fun hx => ?_⟩
  rcases hd' hx with hy | hy
  · exact hd hy
  · exact .inr (hsh ▸ hy)

theorem LocalTo.setLine {addr : Addr} {l : CacheLine} (h : l.valid = true →
    (c.getLine ls addr).valid = true ∧ l.tag = (c.getLine ls addr).tag ∧ l.secure = (c.getLine ls addr).secure ∧
      l.shared = (c.getLine ls addr).shared ∧
      (l.dirty = true → (c.getLine ls addr).dirty = true ∨ (c.getLine ls addr).shared = false)) :
    LocalTo c (c.setLine ls addr l) := by
  refine ⟨rfl, fun x => ?_⟩
  rw [lines_setLine]
  split
  · rename_i hx
    subst hx
    exact h
  · exact fun hv => ⟨hv, rfl, rfl, rfl, .inl⟩

theorem LocalTo.copy (h : LocalTo c c') (a : Addr) (s : Bool) : LocalRel (c.copy ls a s) (c'.copy ls a s) := by
  have hi : c'.lineIndex ls a = c.lineIndex ls a := by rw [lineIndex, lineIndex, getIndex, getIndex, h.cacheSz]
  by_cases hin : c'.inCache ls a s = true
  · obtain ⟨hv', ht', hs'⟩ := (inCache_eq_true ls c').1 hin
    obtain ⟨hv, ht, hs, hsh, hd⟩ := h.lines (c'.lineIndex ls a) hv'
    rw [hi] at hv ht hs hsh hd
    have hc : c.inCache ls a s = true := (inCache_eq_true ls c).2
      ⟨hv, ht.symm.trans (by rw [← hi]; exact ht'), hs.symm.trans (by rw [← hi]; exact hs')⟩
    refine .inr ⟨_, _, c.copy_of_inCache ls hc, c'.copy_of_inCache ls hin, ?_, ?_⟩
    · show (c'.lines (c'.lineIndex ls a)).shared = _
      rw [hi]
      exact hsh
    · show (c'.lines (c'.lineIndex ls a)).dirty = true → _
      rw [hi]
      exact hd
  · exact .inl ((c'.copy_eq_none ls).2 (Bool.eq_false_iff.2 hin))

theorem localTo_monitorReset (c : Cache) (addr : Addr) : LocalTo c (c.monitorReset addr) := .of_lines rfl rfl

theorem localTo_monitorSet (c : Cache) (addr : Addr) : LocalTo c (c.monitorSet addr) := by
  unfold monitorSet
  split
  · exact .refl c
  · exact .of_lines rfl rfl

theorem localTo_evict (c : Cache) (addr : Addr) : LocalTo c (c.evict ls addr) :=
  .setLine ls fun h => absurd h (by simp)

theorem localTo_writeLine {gp : Payload} {pos : ℕ} (c : Cache) (h : c.isUnique ls (gp.addrAt pos) = true) :
    LocalTo c (c.writeLine ls gp pos true) := by
  have hu : (c.getLine ls (gp.addrAt pos)).shared = false := by simpa [isUnique] using h
  exact .setLine ls fun hv => ⟨hv, rfl, rfl, rfl, fun _ => .inr hu⟩

theorem localTo_startFetch (c : Cache) (addr : Addr) (f : Fetch) : LocalTo c (c.startFetch ls addr f).1 := by
  simp only [startFetch]
  split
  · split
    · exact .of_lines rfl rfl
    · exact localTo_evict ls c addr
  · exact .refl c

theorem localTo_writeclean (c : Cache) (addr : Addr) (tr : Transaction) : LocalTo c (c.writeclean ls addr tr) := by
  unfold writeclean
  split
  · exact .setLine ls fun hv => ⟨hv, rfl, rfl, rfl, fun h => absurd h (by simp)⟩
  · exact .refl c

theorem localTo_writeback (c : Cache) (addr : Addr) (tr : Transaction) : LocalTo c (c.writeback ls addr tr) := by
  unfold writeback
  split
  · exact .setLine ls fun h => absurd h (by simp)
  · exact .refl c

theorem localTo_afterWriteclean (c : Cache) (addr : Addr) (f : Fetch) (tr : Transaction) :
    LocalTo c (c.afterWriteclean ls addr f tr).1 := by
  unfold afterWriteclean
  dsimp only
  split
  · exact localTo_writeclean ls c addr tr
  · exact (localTo_writeclean ls c addr tr).trans (localTo_evict ls _ addr)

end Cache

open Cache

section Loops

variable (port : Fin N)

theorem loadLoop_localTo (fuel : ℕ) (c : Cache) (trace : List (Event N)) (gp : Payload) (pos : ℕ) (ef : Bool) :
    LocalTo c (loadLoop ls port fuel c trace gp pos ef).cache := by
  induction fuel generalizing c trace gp pos with
  | zero => exact .refl c
  | succ fuel ih =>
    simp only [loadLoop]
    split
    · split
      · exact ih ..
      · refine .trans ?_ (localTo_startFetch ls _ _ _)
        split
        · exact .refl c
        · exact .of_lines rfl rfl
    · exact .refl c

/-- Storing is local: a line is written only while it is unshared. -/
theorem storeLoop_localTo (fuel : ℕ) (c : Cache) (trace : List (Event N)) (gp : Payload) (pos : ℕ) :
    LocalTo c (storeLoop ls port fuel c trace gp pos).cache := by
  induction fuel generalizing c trace pos with
  | zero => exact .refl c
  | succ fuel ih =>
    simp only [storeLoop]
    split
    · split
      · exact .refl c
      · split
        · split
          · rename_i hu
            refine .trans ((localTo_writeLine ls c hu).trans ?_) (ih ..)
            split
            · exact localTo_monitorReset _ _
            · exact .refl _
          · exact .refl c
        · exact localTo_startFetch ls c _ _
    · exact .refl c

theorem runLoop_localTo (c : Cache) (trace : List (Event N)) (gp : Payload) (pos : ℕ) (ef : Bool) :
    LocalTo c (runLoop ls port c trace gp pos ef).cache := by
  unfold runLoop
  split
  · exact storeLoop_localTo ..
  · exact loadLoop_localTo ..

theorem resumeFetch_localTo (c : Cache) (trace : List (Event N)) (op : Op) (f : Fetch) (tr : Transaction) :
    LocalTo (c.fillLine ls op.addr f tr) (resumeFetch ls port c trace op f tr).cache := by
  unfold resumeFetch
  dsimp only
  split
  · exact (localTo_monitorSet _ _).trans (runLoop_localTo ..)
  · exact runLoop_localTo ..

theorem resumeCleanUnique_localTo (c : Cache) (trace : List (Event N)) (op : Op) (tr : Transaction) :
    LocalTo (c.afterCleanUnique ls op.addr tr) (resumeCleanUnique ls port c trace op tr).cache := by
  unfold resumeCleanUnique
  dsimp only
  split
  · split
    · exact runLoop_localTo ..
    · exact localTo_monitorReset _ _
  · exact runLoop_localTo ..

end Loops

/-! ### What a transaction does -/

/-- How the caches hold the line of `addr` under the security state. -/
def copies (caches : Fin N → Cache) (addr : Addr) (secure : Bool) : Fin N → Option Copy :=
  fun i => (caches i).copy ls addr secure

theorem localStep_update {caches : Fin N → Cache} {port : Fin N} {c : Cache} (h : LocalTo (caches port) c) (a : Addr)
    (s : Bool) : LocalStep port (copies ls caches a s) (copies ls (Function.update caches port c) a s) := by
  refine ⟨?_, fun {i} hi => ?_⟩
  · simp only [copies, Function.update_self]
    exact h.copy ls a s
  · simp only [copies, Function.update_of_ne hi]

section Transactions

variable {ls} {waiting : Fin N → Bool} {caches : Fin N → Cache} {mon : PosMonitor N} {mem : Addr → Byte} {port : Fin N}
  {tr : Transaction} {acc : Accepted N}

/-- The other caches' copies after a line request. -/
theorem Snooped.copy_others (h : Snooped ls waiting caches mon mem port tr acc) {i : Fin N} (hi : i ≠ port) (a : Addr)
    (s : Bool) : (acc.caches i).copy ls a s =
      if ls.getTag a = ls.getTag tr.address ∧ s = tr.genattr.secure then
        ((caches i).copy ls a s).bind (snoopOf tr.cmd).after
      else (caches i).copy ls a s := by
  rw [h.others hi, copy_snoopAnswer]

/-- A line request keeps the rule, once the requester has changed only the line it asked for. -/
theorem Snooped.owned (h : Snooped ls waiting caches mon mem port tr acc) {c : Cache}
    (hown : ∀ a s, ¬ (ls.getTag a = ls.getTag tr.address ∧ s = tr.genattr.secure) →
      LocalRel ((caches port).copy ls a s) (c.copy ls a s))
    (hline : ∀ a s, ls.getTag a = ls.getTag tr.address → s = tr.genattr.secure → Owned (copies ls caches a s) →
      Owned (copies ls (Function.update acc.caches port c) a s))
    (hall : ∀ a s, Owned (copies ls caches a s)) (a : Addr) (s : Bool) :
    Owned (copies ls (Function.update acc.caches port c) a s) := by
  by_cases hk : ls.getTag a = ls.getTag tr.address ∧ s = tr.genattr.secure
  · exact hline a s hk.1 hk.2 (hall a s)
  · refine (hall a s).localStep (j := port) ⟨?_, fun {i} hi => ?_⟩
    · simp only [copies, Function.update_self]
      exact hown a s hk
    · simp only [copies, Function.update_of_ne hi]
      rw [h.copy_others hi, if_neg hk]

/-- The copies of a filled line: the line itself, and none of another line at its index. -/
theorem copy_fillLine {c : Cache} {addr : Addr} {f : Fetch} (hok : tr.response = .ok) (a : Addr) (s : Bool) :
    (c.fillLine ls addr f tr).copy ls a s =
      if ls.getTag a = ls.getTag addr ∧ s = tr.genattr.secure then
        some ⟨if f = .makeUnique then false else tr.genattr.shared, if f = .makeUnique then true else tr.genattr.dirty⟩
      else if c.lineIndex ls a = c.lineIndex ls addr then none else c.copy ls a s := by
  rw [fillLine, if_pos hok]
  by_cases hi : c.lineIndex ls a = c.lineIndex ls addr
  · rw [copy_setLine_of_eq ls c _ s hi, if_pos hi]
    simp only [true_and, eq_comm (a := ls.getTag addr), eq_comm (a := tr.genattr.secure)]
  · have hk : ¬ (ls.getTag a = ls.getTag addr ∧ s = tr.genattr.secure) := fun hk => hi (by
      rw [← lineIndex_getTag ls c a, hk.1, lineIndex_getTag])
    rw [copy_setLine_of_ne ls c _ s hi, if_neg hk, if_neg hi]

/-- **A fetch keeps the rule.** -/
theorem Snooped.owned_fetch (h : Snooped ls waiting caches mon mem port tr acc) (addr : Addr) {f : Fetch} {c : Cache}
    (hcmd : tr.cmd = f.cmd) (haddr : tr.address = ls.getTag addr)
    (hlocal : LocalTo ((acc.caches port).fillLine ls addr f acc.tr) c) (hall : ∀ a s, Owned (copies ls caches a s))
    (a : Addr) (s : Bool) : Owned (copies ls (Function.update acc.caches port c) a s) := by
  have hfill : ∀ a s, Owned (copies ls (Function.update acc.caches port ((acc.caches port).fillLine ls addr f acc.tr)) a s) := by
    refine h.owned (fun a s hk => ?_) (fun a s ht hs ho => ?_) hall
    · rw [haddr, LineSize.getTag_getTag] at hk
      rw [copy_fillLine h.response, h.secure, if_neg hk, h.self]
      split
      · exact .inl rfl
      · exact .refl _
    · have hkey : ls.getTag a = ls.getTag addr ∧ s = acc.tr.genattr.secure := by
        rw [ht, haddr, LineSize.getTag_getTag, h.secure]
        exact ⟨rfl, hs⟩
      have hoth : ∀ {i}, i ≠ port → copies ls (Function.update acc.caches port
          ((acc.caches port).fillLine ls addr f acc.tr)) a s i = ((caches i).copy ls a s).bind (snoopOf tr.cmd).after := by
        intro i hi
        simp only [copies, Function.update_of_ne hi]
        rw [h.copy_others hi, if_pos ⟨ht, hs⟩]
      have hcopy : ∀ i, (caches i).copy ls tr.address tr.genattr.secure = (caches i).copy ls a s := fun i => by
        rw [← copy_getTag, ← ht, copy_getTag, hs]
      have hself : copies ls (Function.update acc.caches port ((acc.caches port).fillLine ls addr f acc.tr)) a s port =
          some ⟨if f = .makeUnique then false else acc.tr.genattr.shared,
            if f = .makeUnique then true else acc.tr.genattr.dirty⟩ := by
        simp only [copies, Function.update_self]
        rw [copy_fillLine h.response, if_pos hkey]
      have hshared := h.shared
      have hdirty := h.dirty
      simp only [hcopy, hcmd] at hshared hdirty hoth
      cases f with
      | readUnique | makeUnique =>
        -- every other copy is invalidated
        refine Owned.of_alone (j := port) fun {i} hi => ?_
        rw [hoth hi]
        cases (caches i).copy ls a s <;> rfl
      | readShared =>
        refine ho.fillStep ⟨hself, fun {i d} hi hd => ?_, fun hns {i} hi => ?_, fun _ {i d} hi hd => ?_⟩
        · rw [hoth hi] at hd
          obtain ⟨e, he, hde⟩ := Option.bind_eq_some_iff.1 hd
          obtain rfl : (⟨true, false⟩ : Copy) = d := by simpa [Fetch.cmd, snoopOf, AC.after] using hde
          exact ⟨e, he, rfl, fun h => absurd h (by simp)⟩
        · -- no answer said that the line is shared, so there is no other copy
          rw [hoth hi]
          cases hc : (caches i).copy ls a s with
          | none => rfl
          | some x =>
            rw [if_neg (by simp), hshared.2 ⟨rfl, i, hi, x, hc⟩] at hns
            cases hns
        · rw [hoth hi] at hd
          obtain ⟨e, -, hde⟩ := Option.bind_eq_some_iff.1 hd
          obtain rfl : (⟨true, false⟩ : Copy) = d := by simpa [Fetch.cmd, snoopOf, AC.after] using hde
          rfl
      | readNotSharedDirty =>
        refine ho.fillStep ⟨hself, fun {i d} hi hd => ?_, fun hns {i} hi => ?_, fun hdt {i d} hi hd => ?_⟩
        · rw [hoth hi] at hd
          obtain ⟨e, he, hde⟩ := Option.bind_eq_some_iff.1 hd
          obtain rfl : ({ e with shared := true } : Copy) = d := by simpa [Fetch.cmd, snoopOf, AC.after] using hde
          exact ⟨e, he, rfl, fun h => h⟩
        · rw [hoth hi]
          cases hc : (caches i).copy ls a s with
          | none => rfl
          | some x =>
            rw [if_neg (by simp), hshared.2 ⟨rfl, i, hi, x, hc⟩] at hns
            cases hns
        · -- a `ReadNotSharedDirty` is handled as a `ReadClean`: nothing dirty is passed
          obtain ⟨-, j, -, x, -, hp⟩ := hdirty.1 (by simpa using hdt)
          simp [Fetch.cmd, snoopOf, AC.passes, AC.reportsDirty] at hp
  have hu : LocalStep port (copies ls (Function.update acc.caches port ((acc.caches port).fillLine ls addr f acc.tr)) a s)
      (copies ls (Function.update (Function.update acc.caches port ((acc.caches port).fillLine ls addr f acc.tr)) port c) a s) :=
    localStep_update ls (by rw [Function.update_self]; exact hlocal) a s
  rw [Function.update_idem] at hu
  exact (hfill a s).localStep hu

/-- **A `CleanUnique` that is carried out keeps the rule.** The line it was sent for may have been
invalidated in the meantime, but it was not replaced. -/
theorem Snooped.owned_cleanUnique (h : Snooped ls waiting caches mon mem port tr acc) (addr : Addr) {c : Cache}
    (hcmd : tr.cmd = .ignoreRead .cleanUnique) (haddr : tr.address = ls.getTag addr)
    (hsec : ((caches port).getLine ls addr).secure = tr.genattr.secure)
    (htag : ((caches port).getLine ls addr).tag = ls.getTag addr)
    (hlocal : LocalTo ((acc.caches port).afterCleanUnique ls addr acc.tr) c)
    (hall : ∀ a s, Owned (copies ls caches a s)) (a : Addr) (s : Bool) :
    Owned (copies ls (Function.update acc.caches port c) a s) := by
  have hself := h.self
  refine h.owned (fun a s hk => LocalRel.trans ?_ (hlocal.copy ls a s)) (fun a s ht hs _ => ?_) hall a s
  · rw [haddr, LineSize.getTag_getTag] at hk
    rw [afterCleanUnique, if_pos h.response, hself]
    split
    · by_cases hi : (caches port).lineIndex ls a = (caches port).lineIndex ls addr
      · rw [copy_setLine_of_eq ls _ _ s hi, if_neg]
        · exact .inl rfl
        · rintro ⟨-, h₁, h₂⟩
          exact hk ⟨h₁.symm.trans htag, h₂.symm.trans hsec⟩
      · rw [copy_setLine_of_ne ls _ _ s hi]
        exact .refl _
    · rename_i hv
      refine LocalTo.copy ls (c := caches port) ?_ a s
      exact ⟨rfl, fun x => by
        simp only [evict, lines_setLine, lineIndex_setLine]
        split
        · exact fun h => absurd h (by simp)
        · exact fun hv => ⟨hv, rfl, rfl, rfl, .inl⟩⟩
  · refine Owned.of_alone (j := port) fun {i} hi => ?_
    simp only [copies, Function.update_of_ne hi]
    rw [h.copy_others hi, if_pos ⟨ht, hs⟩, hcmd]
    cases (caches i).copy ls a s <;> rfl

end Transactions

/-! ### The invariant -/

/-- A valid line is found at the index of its tag, which is a line's address. -/
def Cache.Shape (c : Cache) : Prop :=
  ∀ x, (c.lines x).valid = true → c.lineIndex ls (c.lines x).tag = x ∧ ls.getTag (c.lines x).tag = (c.lines x).tag

section Shape

variable {ls} {c c' : Cache}

/-- Lines that were valid before, under the tags they had, keep the shape. -/
theorem Cache.Shape.of_sub (h : c.Shape ls) (hs : c'.cacheSz = c.cacheSz)
    (hl : ∀ x, (c'.lines x).valid = true → (c.lines x).valid = true ∧ (c'.lines x).tag = (c.lines x).tag) : c'.Shape ls := by
  intro x hv
  obtain ⟨hv', ht⟩ := hl x hv
  rw [ht, show c'.lineIndex ls (c.lines x).tag = c.lineIndex ls (c.lines x).tag by
    simp only [lineIndex, getIndex, hs]]
  exact h x hv'

theorem Cache.Shape.localTo (h : c.Shape ls) (hl : LocalTo c c') : c'.Shape ls :=
  h.of_sub hl.cacheSz fun x hv => ⟨(hl.lines x hv).1, (hl.lines x hv).2.1⟩

theorem Cache.Shape.snoopAnswer (h : c.Shape ls) (ac : AC) (addr : Addr) (secure : Bool) :
    (snoopAnswer ls ac addr secure c).1.Shape ls :=
  h.of_sub (snoopAnswer_cacheSz ..) fun x hv =>
    ⟨(snoopAnswer_keeps ls c ac addr secure x).2.2.2 hv, (snoopAnswer_keeps ls c ac addr secure x).1⟩

/-- Putting the line of `addr` at its index keeps the shape. -/
theorem Cache.Shape.setLine (h : c.Shape ls) {addr : Addr} {l : CacheLine}
    (hl : l.valid = true → l.tag = ls.getTag addr) : (c.setLine ls addr l).Shape ls := by
  intro x
  rw [lines_setLine, lineIndex_setLine]
  split
  · rename_i hx
    intro hv
    rw [hl hv, lineIndex_getTag, LineSize.getTag_getTag]
    exact ⟨hx.symm, rfl⟩
  · exact h x

theorem Cache.Shape.fillLine (h : c.Shape ls) {addr : Addr} {f : Fetch} {tr : Transaction} (hok : tr.response = .ok) :
    (c.fillLine ls addr f tr).Shape ls := by
  rw [Cache.fillLine, if_pos hok]
  exact h.setLine fun _ => rfl

theorem Cache.Shape.afterCleanUnique (h : c.Shape ls) {addr : Addr} {tr : Transaction}
    (ht : (c.getLine ls addr).tag = ls.getTag addr) : (c.afterCleanUnique ls addr tr).Shape ls := by
  unfold Cache.afterCleanUnique
  split
  · simp only []
    split
    · exact h.setLine fun _ => ht
    · refine Cache.Shape.localTo ?_ (localTo_evict ls _ addr)
      exact h.setLine fun _ => ht
  · exact h

end Shape

/-- A payload that waits for a `CleanUnique` finds the line it was sent for at its index, if not still valid. -/
def Op.Fits (op : Op) (c : Cache) : Prop :=
  op.pending = .cleanUnique →
    (c.getLine ls op.addr).tag = ls.getTag op.addr ∧ (c.getLine ls op.addr).secure = op.gp.getSecure

/-- The payload of a cache that runs on, if it is not returned, fits. -/
def Local.Fits (l : Local N) : Prop := ∀ op, l.op = some op → op.Fits ls l.cache

section Fits

variable (port : Fin N)

theorem startFetch_pending (c : Cache) (addr : Addr) (f : Fetch) : (c.startFetch ls addr f).2 ≠ .cleanUnique := by
  unfold startFetch
  dsimp only
  split
  · split
    · dsimp only
      split <;> exact Pending.noConfusion
    · exact Pending.noConfusion
  · exact Pending.noConfusion

theorem loadLoop_fits (fuel : ℕ) (c : Cache) (trace : List (Event N)) (gp : Payload) (pos : ℕ) (ef : Bool) :
    (loadLoop ls port fuel c trace gp pos ef).Fits ls := by
  induction fuel generalizing c trace gp pos with
  | zero => exact fun op h => absurd h (by simp [loadLoop, returnLoad])
  | succ fuel ih =>
    simp only [loadLoop]
    split
    · split
      · exact ih _ _ _ _
      · intro op hop hp
        obtain rfl := Option.some.inj hop
        exact absurd hp (startFetch_pending ls _ _ _)
    · exact fun op h => absurd h (by simp [returnLoad])

theorem storeLoop_fits (fuel : ℕ) (c : Cache) (trace : List (Event N)) (gp : Payload) (pos : ℕ) :
    (storeLoop ls port fuel c trace gp pos).Fits ls := by
  induction fuel generalizing c trace pos with
  | zero => exact fun op h => absurd h (by simp [storeLoop, returnStore])
  | succ fuel ih =>
    simp only [storeLoop]
    split
    · split
      · exact fun op h => absurd h (by simp [returnStore])
      · split
        · split
          · exact ih _ _ _
          · rename_i hin _
            intro op hop _
            obtain rfl := Option.some.inj hop
            exact ((inCache_eq_true ls c).1 hin).2
        · intro op hop hp
          obtain rfl := Option.some.inj hop
          exact absurd hp (startFetch_pending ls _ _ _)
    · exact fun op h => absurd h (by simp [returnStore])

theorem runLoop_fits (c : Cache) (trace : List (Event N)) (gp : Payload) (pos : ℕ) (ef : Bool) :
    (runLoop ls port c trace gp pos ef).Fits ls := by
  unfold runLoop
  split
  · exact storeLoop_fits ls port _ _ _ _ _
  · exact loadLoop_fits ls port _ _ _ _ _ _

theorem resume_fits (c : Cache) (trace : List (Event N)) (op : Op) (tr : Transaction) :
    (resume ls port c trace op tr).Fits ls := by
  unfold resume
  split
  · intro op' hop hp
    obtain rfl := Option.some.inj hop
    revert hp
    simp only [afterWriteclean]
    split <;> simp
  · intro op' hop hp
    obtain rfl := Option.some.inj hop
    exact absurd hp (by simp [afterWriteback])
  · unfold resumeFetch
    dsimp only
    split <;> exact runLoop_fits ls port _ _ _ _ _
  · unfold resumeCleanUnique
    dsimp only
    split
    · split
      · exact runLoop_fits ls port _ _ _ _ _
      · exact fun op h => absurd h (by simp [returnStore])
    · exact runLoop_fits ls port _ _ _ _ _

theorem Op.Fits.snoopAnswer {op : Op} {c : Cache} (h : op.Fits ls c) (ac : AC) (addr : Addr) (secure : Bool) :
    op.Fits ls (snoopAnswer ls ac addr secure c).1 := by
  intro hp
  obtain ⟨ht, hs⟩ := h hp
  obtain ⟨ht', hs', -⟩ := snoopAnswer_keeps ls c ac addr secure (c.lineIndex ls op.addr)
  rw [getLine, snoopAnswer_lineIndex]
  exact ⟨ht'.trans ht, hs'.trans hs⟩

end Fits

/-- The invariant: every line is owned by the rule, valid lines are where they are looked for, and a
payload that waits for a `CleanUnique` still has its line. -/
structure OwnInv (s : Sys N) : Prop where
  owned : ∀ a sec, Owned (copies ls s.caches a sec)
  shape : ∀ i, (s.caches i).Shape ls
  fits : ∀ i op, s.ops i = some op → op.Fits ls (s.caches i)

variable {ls}

/-- What is blocked in the caches after one of them has run on. -/
theorem Sys.forall_setLocal {s : Sys N} {port : Fin N} {l : Local N} {P : Fin N → Op → Cache → Prop}
    (hself : ∀ op, l.op = some op → P port op l.cache)
    (hother : ∀ i op, i ≠ port → s.ops i = some op → P i op (s.caches i)) :
    ∀ i op, (s.setLocal port l).ops i = some op → P i op ((s.setLocal port l).caches i) := by
  intro i op hop
  by_cases hi : i = port
  · subst hi
    simp only [Sys.setLocal, Function.update_self] at hop ⊢
    exact hself op hop
  · simp only [Sys.setLocal, Function.update_of_ne hi] at hop ⊢
    exact hother i op hi hop

/-- The caches of a state after one cache has run on. -/
theorem OwnInv.setLocal {s : Sys N} {port : Fin N} {l : Local N} (caches : Fin N → Cache)
    (hcaches : s.caches = caches) (howned : ∀ a sec, Owned (copies ls (Function.update caches port l.cache) a sec))
    (hshape : ∀ i, i ≠ port → (caches i).Shape ls) (hlshape : l.cache.Shape ls)
    (hfits : ∀ i op, i ≠ port → s.ops i = some op → op.Fits ls (caches i)) (hlfits : l.Fits ls) :
    OwnInv ls (s.setLocal port l) := by
  subst hcaches
  refine ⟨howned, fun i => ?_, Sys.forall_setLocal (P := fun _ op c => op.Fits ls c) hlfits hfits⟩
  by_cases hi : i = port
  · subst hi
    simpa only [Sys.setLocal, Function.update_self] using hlshape
  · simpa only [Sys.setLocal, Function.update_of_ne hi] using hshape i hi

/-- The invariant after a line request that is carried out, from the requester's own cache. -/
theorem OwnInv.snooped {s : Sys N} {port : Fin N} {tr : Transaction} {acc : Accepted N} {l : Local N}
    (h : OwnInv ls s) (hs : Snooped ls s.waiting s.caches s.exmon s.mem port tr acc)
    (howned : ∀ a sec, Owned (copies ls (Function.update acc.caches port l.cache) a sec))
    (hlshape : l.cache.Shape ls) (hlfits : l.Fits ls) : OwnInv ls ((s.accept port acc).setLocal port l) := by
  refine .setLocal acc.caches rfl howned (fun i hi => ?_) hlshape (fun i op hi hop => ?_) hlfits
  · rw [hs.others hi]
    exact (h.shape i).snoopAnswer _ _ _
  · rw [hs.others hi]
    exact (h.fits i op hop).snoopAnswer ls _ _ _

/-- **One step keeps the invariant.** -/
theorem OwnInv.step {s s' : Sys N} {a : Action N} (h : OwnInv ls s) (hok : s.CleanUniqueProceeds a)
    (hstep : s.step ls a = some s') : OwnInv ls s' := by
  cases a with
  | begin port gp =>
    obtain ⟨-, rfl⟩ := Sys.step_begin hstep
    have hl := runLoop_localTo ls port (s.caches port) (.begin port gp :: s.trace) gp 0 false
    exact .setLocal s.caches rfl (fun a sec => (h.owned a sec).localStep (localStep_update ls hl a sec))
      (fun i _ => h.shape i) ((h.shape port).localTo hl) (fun i op _ hop => h.fits i op hop) (runLoop_fits ls port _ _ _ _ _)
  | releaseLock =>
    obtain rfl := Option.some.inj hstep
    exact ⟨h.owned, h.shape, h.fits⟩
  | exec port order =>
    obtain ⟨op, acc, hop, hacc, rfl⟩ := Sys.step_exec hstep
    have hpass := hok.passMonitor ls hop
    have hfits := resume_fits ls port (acc.caches port) (s.accept port acc).trace op acc.tr
    -- a write leaves every cache as it was
    have hwrite : ∀ {c' : Cache}, (op.transaction ls port (s.caches port)).cmd = .write .writeBack ∨
        (op.transaction ls port (s.caches port)).cmd = .write .writeClean →
        (op.transaction ls port (s.caches port)).byteEnable = [] →
        (resume ls port (acc.caches port) (s.accept port acc).trace op acc.tr).cache = c' →
        (acc.caches = s.caches → LocalTo (s.caches port) c') →
        OwnInv ls ((s.accept port acc).setLocal port (resume ls port (acc.caches port) (s.accept port acc).trace op acc.tr)) := by
      intro c' hcmd hbe hc hl
      have hcs : acc.caches = s.caches := by rw [bTransport_write hcmd hbe hacc]
      refine .setLocal s.caches hcs (fun a sec => ?_) (fun i _ => h.shape i) ?_
        (fun i op _ hop => h.fits i op hop) hfits
      · rw [hc]
        exact (h.owned a sec).localStep (localStep_update ls (hl hcs) a sec)
      · rw [hc]
        exact (h.shape port).localTo (hl hcs)
    cases hpend : op.pending with
    | writeclean f =>
      exact hwrite (.inr (by simp [Op.transaction, hpend])) (by simp [Op.transaction, hpend])
        (by simp only [resume, hpend]; rfl) fun hcs => by
          rw [hcs]
          exact localTo_afterWriteclean ls _ _ _ _
    | writeback f =>
      exact hwrite (.inl (by simp [Op.transaction, hpend])) (by simp [Op.transaction, hpend])
        (by simp only [resume, hpend]; rfl) fun hcs => by
          rw [hcs]
          exact localTo_writeback ls _ _ _
    | fetch f =>
      have hs := bTransport_lineRequest (Op.lineRequest_fetch hpend) hpass hacc
      have hl := resumeFetch_localTo ls port (acc.caches port) (s.accept port acc).trace op f acc.tr
      have hres : resume ls port (acc.caches port) (s.accept port acc).trace op acc.tr =
          resumeFetch ls port (acc.caches port) (s.accept port acc).trace op f acc.tr := by simp only [resume, hpend]
      rw [hres] at hfits ⊢
      refine h.snooped hs (hs.owned_fetch op.addr (f := f) (by simp only [Op.transaction, hpend])
        (by simp only [Op.transaction, hpend]) hl h.owned) ?_ hfits
      refine Cache.Shape.localTo (Cache.Shape.fillLine ?_ hs.response) hl
      rw [hs.self]
      exact h.shape port
    | cleanUnique =>
      obtain ⟨ht, hsec⟩ := h.fits port op hop hpend
      have hs := bTransport_lineRequest (Op.lineRequest_cleanUnique hpend ht) hpass hacc
      have hl := resumeCleanUnique_localTo ls port (acc.caches port) (s.accept port acc).trace op acc.tr
      have hres : resume ls port (acc.caches port) (s.accept port acc).trace op acc.tr =
          resumeCleanUnique ls port (acc.caches port) (s.accept port acc).trace op acc.tr := by simp only [resume, hpend]
      rw [hres] at hfits ⊢
      refine h.snooped hs (hs.owned_cleanUnique op.addr (by simp only [Op.transaction, hpend])
        (by simp only [Op.transaction, hpend]; exact ht) (by simp only [Op.transaction, hpend]; exact hsec) ht hl
        h.owned) ?_ hfits
      refine Cache.Shape.localTo (Cache.Shape.afterCleanUnique ?_ ?_) hl
      · rw [hs.self]
        exact h.shape port
      · rw [hs.self]
        exact ht

theorem OwnInv.init (cacheSz : Fin N → ℕ) (buffers : Fin N → ℕ → ℕ → Byte) (mem : Addr → Byte) :
    OwnInv ls (Sys.init cacheSz buffers mem) where
  owned a sec := by
    have hn : ∀ i, copies ls (Sys.init cacheSz buffers mem).caches a sec i = none := fun i =>
      (Cache.copy_eq_none ls _).2 rfl
    refine ⟨fun {i j c} hi => ?_, fun {i j c d} hi => ?_⟩ <;>
      (rw [hn] at hi; cases hi)
  shape i x hv := absurd hv (by simp [Sys.init])
  fits i op hop := absurd hop (by simp [Sys.init])

/-! ### Runs of non-exclusive payloads -/

/-- The masters send payloads that are not exclusive. -/
def Sys.NonExclusive (_ : Sys N) : Action N → Prop
  | .begin _ gp => gp.isExclusive = false
  | _ => True

/-- No exclusive payload is under way. -/
def Sys.NoneExclusive (s : Sys N) : Prop := ∀ i op, s.ops i = some op → op.gp.isExclusive = false

theorem Sys.NoneExclusive.cleanUniqueProceeds {s : Sys N} (h : s.NoneExclusive) (a : Action N) :
    s.CleanUniqueProceeds a := by
  cases a with
  | exec port order =>
    intro op hop _ hex
    rw [h port op hop] at hex
    cases hex
  | begin | releaseLock => trivial

theorem Sys.NoneExclusive.setLocal {s : Sys N} (h : s.NoneExclusive) {port : Fin N} {l : Local N}
    (hl : ∀ op, l.op = some op → op.gp.isExclusive = false) : (s.setLocal port l).NoneExclusive :=
  Sys.forall_setLocal (P := fun _ op _ => op.gp.isExclusive = false) hl fun i op _ => h i op

theorem Sys.NoneExclusive.step {s s' : Sys N} {a : Action N} (h : s.NoneExclusive) (hok : s.NonExclusive a)
    (hstep : s.step ls a = some s') : s'.NoneExclusive := by
  cases a with
  | begin port gp =>
    obtain ⟨-, rfl⟩ := Sys.step_begin hstep
    refine h.setLocal fun op hop => ?_
    rw [← op.gp.isExclusive_request, runLoop_request ls port _ _ _ _ _ hop, gp.isExclusive_request]
    exact hok
  | releaseLock =>
    obtain rfl := Option.some.inj hstep
    exact h
  | exec port order =>
    obtain ⟨op, acc, hop, hacc, rfl⟩ := Sys.step_exec hstep
    refine Sys.NoneExclusive.setLocal (s := s.accept port acc) h fun op' hop' => ?_
    rw [← op'.gp.isExclusive_request, resume_request ls port _ _ _ _ hop', op.gp.isExclusive_request]
    exact h port op hop

/-- The ownership invariant along runs of non-exclusive payloads. -/
theorem ownInv_of_reach {cacheSz : Fin N → ℕ} {buffers : Fin N → ℕ → ℕ → Byte} {mem : Addr → Byte} {s : Sys N}
    (h : Reach (Sys.step ls) Sys.NonExclusive (Sys.init cacheSz buffers mem) s) : OwnInv ls s :=
  (h.invariant (I := fun s => OwnInv ls s ∧ s.NoneExclusive) ⟨.init cacheSz buffers mem, fun i op hop => by cases hop⟩
    fun hi hok hs => ⟨hi.1.step (hi.2.cleanUniqueProceeds _) hs, hi.2.step hok hs⟩).1

/-- Single writer, multiple readers, over all lines of all caches. -/
structure SingleWriter (caches : Fin N → Cache) : Prop where
  /-- A cache that holds a line valid and unshared is the only one that holds it valid. -/
  alone : ∀ {i j : Fin N} {x y : ℕ}, i ≠ j → ((caches i).lines x).valid = true → ((caches i).lines x).shared = false →
    ((caches j).lines y).valid = true → ((caches j).lines y).tag = ((caches i).lines x).tag →
    ((caches j).lines y).secure ≠ ((caches i).lines x).secure
  /-- At most one cache holds a line valid and dirty. -/
  oneDirty : ∀ {i j : Fin N} {x y : ℕ}, ((caches i).lines x).valid = true → ((caches i).lines x).dirty = true →
    ((caches j).lines y).valid = true → ((caches j).lines y).dirty = true →
    ((caches j).lines y).tag = ((caches i).lines x).tag → ((caches j).lines y).secure = ((caches i).lines x).secure → i = j

theorem Cache.Shape.copy {c : Cache} (h : c.Shape ls) {x : ℕ} (hv : (c.lines x).valid = true) :
    c.copy ls (c.lines x).tag (c.lines x).secure = some ⟨(c.lines x).shared, (c.lines x).dirty⟩ := by
  obtain ⟨hx, ht⟩ := h x hv
  have hl : c.getLine ls (c.lines x).tag = c.lines x := by rw [getLine, hx]
  rw [Cache.copy_of_inCache ls c ((inCache_eq_true ls c).2 (by rw [hl]; exact ⟨hv, ht.symm, rfl⟩)), hl]

/-- The rule on copies is the rule for the lines as they lie in the caches. -/
theorem SingleWriter.of_owned {caches : Fin N → Cache} (howned : ∀ a sec, Owned (copies ls caches a sec))
    (hshape : ∀ i, (caches i).Shape ls) : SingleWriter caches where
  alone {i j x y} hij hv hsh hv' ht hs := by
    have hj := (hshape j).copy hv'
    have hn := (howned _ _).alone ((hshape i).copy hv) hsh (Ne.symm hij)
    rw [ht, hs] at hj
    rw [copies, hj] at hn
    cases hn
  oneDirty {i j x y} hv hd hv' hd' ht hs := by
    have hj := (hshape j).copy hv'
    rw [ht, hs] at hj
    exact (howned _ _).oneDirty ((hshape i).copy hv) hj hd hd'

theorem OwnInv.singleWriter {s : Sys N} (h : OwnInv ls s) : SingleWriter s.caches := .of_owned h.owned h.shape

/-- **Single writer, multiple readers**: at every state that non-exclusive loads and stores reach from
reset, whatever the order in which the transactions of the masters and the answers of the snooped
caches are carried out. -/
theorem singleWriter_of_reach {cacheSz : Fin N → ℕ} {buffers : Fin N → ℕ → ℕ → Byte} {mem : Addr → Byte} {s : Sys N}
    (h : Reach (Sys.step ls) Sys.NonExclusive (Sys.init cacheSz buffers mem) s) : SingleWriter s.caches :=
  (ownInv_of_reach h).singleWriter

/-- A store, a load of the line by another master, and a second store that needs a `CleanUnique`. -/
def storeLoadStore : List (Action 2) :=
  let store : Payload := { write := true, address := 0x1000, dataLength := 4, data := fun _ => 0xa5 }
  [.begin 0 store, .exec 0 [1], .begin 1 { store with write := false }, .exec 1 [0], .begin 0 store, .exec 0 [1]]

/-- The rule at the end of that run. -/
theorem singleWriter_storeLoadStore : ∃ s : Sys 2,
    run (Sys.step .default) (Sys.init (fun _ => 4096) (fun _ _ _ => 0) fun _ => 0) storeLoadStore = some s ∧
      SingleWriter s.caches := by
  have hrun : (run (Sys.step .default) (Sys.init (fun _ => 4096) (fun _ _ _ => 0) fun _ => 0) storeLoadStore).isSome := by
    decide +kernel
  obtain ⟨s, hs⟩ := Option.isSome_iff_exists.1 hrun
  have hok : ∀ a ∈ storeLoadStore, ∀ s : Sys 2, s.NonExclusive a := by
    simp [storeLoadStore, Sys.NonExclusive, Payload.isExclusive]
  exact ⟨s, hs, singleWriter_of_reach (Reach.refl.of_run (runOk_of_forall hok _) hs)⟩

end LibSystemCTLM.Ace
