import LibSystemCTLM.Ace.Snoop

/-!
# Errors from downstream

`handle_load` and `handle_store` of `ACECacheWriteBack` (`cache-ace.h`), where any transaction may be answered with an error. The line
operations act on the line only if they are answered OK; but nobody tells the loops, which look whether the line is there, and try again.
In the end the payload gets `TLM_OK_RESPONSE`, whatever has happened; a line that cannot be fetched is tried for ever (`not_returned`).
A line that could not be written back stays where it is, and the fetch that follows reads into its buffer (`kept_iff`).

## The model

The answers of the downstream are a sequence, one for each transaction. With each come the snoops that the cache has answered while it
was waiting. A step is one turn of the loop, or the end of it.
-/

namespace LibSystemCTLM.Ace.ErrorPath

open Foundation Cache

variable (ls : LineSize)

/-- A transaction as it comes back, and the snoops in the meantime. -/
structure Answer where
  tr : Transaction
  snoops : List (AC × Addr × Bool) := []

/-- The answers to come. -/
abbrev Env := ℕ → Answer

variable (env : Env)

/-- `do_tlm` returns true. -/
def ok (n : ℕ) : Bool := decide ((env n).tr.response = .ok)

/-- The cache answers snoops. -/
def snoopAll (c : Cache) (snoops : List (AC × Addr × Bool)) : Cache :=
  snoops.foldl (fun c x => (snoopAnswer ls x.1 x.2.1 x.2.2 c).1) c

/-- A cache, and how many transactions were sent. `written` says that a dirty line got downstream, or that there was none. -/
structure Sent where
  cache : Cache
  sent : ℕ
  written : Bool := true

/-- `evict`. -/
def evict (addr : Addr) (c : Cache) (n : ℕ) : Sent := ⟨if ok env n = true then c.evict ls addr else c, n + 1, true⟩

/-- `evict_line`. -/
def evictLine (addr : Addr) (c : Cache) (n : ℕ) : Sent :=
  if (c.getLine ls addr).dirty = true then
    let c := c.getToggle
    if c.toggle = true then
      let c' := c.writeclean ls addr (env n).tr
      if (c'.getLine ls addr).dirty = true then ⟨c'.writeback ls addr (env (n + 1)).tr, n + 2, ok env (n + 1)⟩
      else evict ls env addr c' (n + 1)
    else ⟨c.writeback ls addr (env n).tr, n + 1, ok env n⟩
  else evict ls env addr c n

/-- `read_shared`, `read_not_shared_dirty`, `read_unique` and `make_unique` up to their transaction. -/
def beforeFetch (addr : Addr) (c : Cache) (n : ℕ) : Sent :=
  if (c.getLine ls addr).valid = true then evictLine ls env addr c n else ⟨c, n, true⟩

/-- The transaction behind it, which has read into the buffer of the line if it reads. -/
def fetched (addr : Addr) (f : Fetch) (e : Sent) : Transaction :=
  let tr := (env e.sent).tr
  if f = .makeUnique then { tr with data := ((snoopAll ls e.cache (env e.sent).snoops).getLine ls addr).data } else tr

/-- The whole of them. -/
def fetch (addr : Addr) (f : Fetch) (c : Cache) (n : ℕ) : Sent :=
  let e := beforeFetch ls env addr c n
  ⟨(snoopAll ls e.cache (env e.sent).snoops).fillLine ls addr f (fetched ls env addr f e), e.sent + 1, e.written⟩

/-- `clean_unique`. -/
def cleanUnique (addr : Addr) (c : Cache) (n : ℕ) : Sent :=
  let c := snoopAll ls c (env n).snoops
  let l := c.getLine ls addr
  if ok env n = true then
    if l.valid = true then ⟨c.setLine ls addr { l with shared := false }, n + 1, true⟩
    else evict ls env addr (c.setLine ls addr { l with valid := true }) (n + 1)
  else ⟨c, n + 1, true⟩

/-- A payload under way. -/
structure Running where
  cache : Cache
  gp : Payload
  pos : ℕ := 0
  exclusiveFailed : Bool := false
  sent : ℕ := 0
  returned : Bool := false

namespace Running

variable (s : Running)

/-- `addr` of the loops. -/
def addr : Addr := s.gp.addrAt s.pos

/-- The end of `handle_load` and of `handle_store`. -/
def ret (exokay : Bool) : Running :=
  { s with gp := { (if exokay = true then s.gp.setExokay else s.gp) with response := .ok }, returned := true }

/-- The line is there. -/
def hit : Bool := s.cache.inCache ls s.addr s.gp.getSecure

/-- How a line that is not there is fetched, and the cache by then. -/
def fetchOf : Cache × Fetch :=
  if s.gp.write = true then (s.cache, if toWrite ls s.gp s.pos = ls.size then .makeUnique else .readUnique)
  else
    let c := if s.gp.isExclusive = true then s.cache else s.cache.getToggle
    (c, if (s.gp.isExclusive || c.toggle) = true then .readShared else .readNotSharedDirty)

/-- The line is fetched. -/
def miss : Running :=
  let c := s.fetchOf ls
  let r := fetch ls env s.addr c.2 c.1 s.sent
  let gp := if c.2 = .readShared then s.gp.setExclusiveHandled (env (r.sent - 1)).tr.genattr.exclusiveHandled else s.gp
  if gp.isExclusive = true ∧ gp.write = false then
    { s with cache := r.cache.monitorSet s.addr, gp := gp.clearExokay, exclusiveFailed := s.exclusiveFailed || !gp.hasExokay, sent := r.sent }
  else { s with cache := r.cache, gp := gp, sent := r.sent }

/-- One turn of `handle_load`. -/
def loadStep : Running :=
  if s.pos < s.gp.dataLength then
    if s.hit ls = true then { s with gp := s.cache.readLine ls s.gp s.pos, pos := s.pos + toWrite ls s.gp s.pos }
    else s.miss ls env
  else s.ret (s.gp.isExclusive && !s.exclusiveFailed)

/-- `clean_unique`, in `handle_store`. -/
def share : Running :=
  let r := cleanUnique ls env s.addr s.cache s.sent
  let gp := if (r.cache.getLine ls s.addr).valid = true then s.gp.setExclusiveHandled (env s.sent).tr.genattr.exclusiveHandled else s.gp
  if gp.isExclusive = true then
    if gp.hasExokay = true then { s with cache := r.cache, gp := gp.clearExokay, sent := r.sent }
    else { s with cache := r.cache.monitorReset s.addr, gp := gp, sent := r.sent }.ret false
  else { s with cache := r.cache, gp := gp, sent := r.sent }

/-- One turn of `handle_store`. -/
def storeStep : Running :=
  if s.pos < s.gp.dataLength then
    if (s.gp.isExclusive && !s.cache.monitorIsSet s.addr) = true then s.ret false
    else if s.hit ls = true then
      if s.cache.isUnique ls s.addr = true then
        let c := s.cache.writeLine ls s.gp s.pos true
        { s with cache := if s.gp.isExclusive = true then c.monitorReset s.addr else c, pos := s.pos + toWrite ls s.gp s.pos }
      else s.share ls env
    else s.miss ls env
  else s.ret (s.gp.isExclusive && decide (s.pos = s.gp.dataLength))

/-- A payload that is sent. -/
def start (c : Cache) (gp : Payload) : Running where
  cache := c
  gp := gp

/-- One turn. -/
def step : Running := if s.returned = true then s else if s.gp.write = true then s.storeStep ls env else s.loadStep ls env

/-- `n` turns. -/
def run (n : ℕ) : Running := (step ls env)^[n] s

end Running

/-! ### What should become of an error -/

section Purpose

variable (s : Running)

/-- A transaction fails. -/
def Failed : Prop := ∃ n, ∃ k < (s.run ls env n).sent, s.sent ≤ k ∧ ok env k = false

/-- The step is a fetch, for which a line in the way could not be written. -/
def Unwritten : Prop :=
  s.returned = false ∧ s.pos < s.gp.dataLength ∧ (s.gp.write = true → s.gp.isExclusive = true → s.cache.monitorIsSet s.addr = true) ∧
    s.hit ls = false ∧ (beforeFetch ls env s.addr (s.fetchOf ls).1 s.sent).written = false

/-- Then the line is still what it was, unless a snoop asked for it. -/
def Kept : Prop :=
  Unwritten ls env s → (env (beforeFetch ls env s.addr (s.fetchOf ls).1 s.sent).sent).snoops = [] →
    let l := s.cache.getLine ls s.addr
    let l' := (s.step ls env).cache.getLine ls s.addr
    l'.valid = true ∧ l'.dirty = true ∧ l'.tag = l.tag ∧ ∀ o < ls.size, l'.data o = l.data o

/-- **The error path**: the payload of which a transaction fails is returned with an error, and no dirty line gets lost. -/
structure Handled : Prop where
  reported : Failed ls env s → ∃ n, (s.run ls env n).returned = true ∧ (s.run ls env n).gp.response = .genericError
  kept : ∀ n, Kept ls env (s.run ls env n)

end Purpose

/-! ### What is returned -/

section Returned

variable {ls} {env} {s : Running}

theorem run_succ (s : Running) (n : ℕ) : s.run ls env (n + 1) = (s.run ls env n).step ls env := Function.iterate_succ_apply' ..

theorem miss_returned (s : Running) : (s.miss ls env).returned = s.returned := by
  unfold Running.miss
  dsimp only
  split_ifs <;> rfl

theorem share_returned (h : s.returned = false) (h' : (s.share ls env).returned = true) : (s.share ls env).gp.response = .ok := by
  have hnot : ¬ s.returned = true := by rw [h]; decide
  unfold Running.share at h' ⊢
  dsimp only at h' ⊢
  split_ifs at h' ⊢ <;> first | rfl | exact absurd h' hnot

/-- A payload is returned by the end of a loop only. -/
theorem step_returned (h : s.returned = false) (h' : (s.step ls env).returned = true) : (s.step ls env).gp.response = .ok := by
  have hnot : ¬ s.returned = true := by rw [h]; decide
  have hmiss : (s.miss ls env).returned = true → (s.miss ls env).gp.response = .ok := fun hm => absurd (miss_returned s ▸ hm) hnot
  rw [Running.step, if_neg hnot] at h' ⊢
  split at h'
  · rename_i hw
    rw [if_pos hw]
    unfold Running.storeStep at h' ⊢
    split at h'
    · rename_i hlt
      rw [if_pos hlt]
      split at h'
      · rename_i hmon
        rw [if_pos hmon]
        rfl
      · rename_i hmon
        rw [if_neg hmon]
        split at h'
        · rename_i hhit
          rw [if_pos hhit]
          split at h'
          · exact absurd h' hnot
          · rename_i hu
            rw [if_neg hu]
            exact share_returned h h'
        · rename_i hhit
          rw [if_neg hhit]
          exact hmiss h'
    · rename_i hlt
      rw [if_neg hlt]
      rfl
  · rename_i hw
    rw [if_neg hw]
    unfold Running.loadStep at h' ⊢
    split at h'
    · rename_i hlt
      rw [if_pos hlt]
      split at h'
      · exact absurd h' hnot
      · rename_i hhit
        rw [if_neg hhit]
        exact hmiss h'
    · rename_i hlt
      rw [if_neg hlt]
      rfl

/-- **What is returned is returned OK.** -/
theorem run_response (h : s.returned = false) (n : ℕ) (hr : (s.run ls env n).returned = true) : (s.run ls env n).gp.response = .ok := by
  induction n with
  | zero => exact absurd hr (by rw [Running.run, Function.iterate_zero_apply, h]; decide)
  | succ n ih =>
    rw [run_succ] at hr ⊢
    cases hn : (s.run ls env n).returned with
    | false => exact step_returned hn hr
    | true =>
      rw [Running.step, if_pos hn]
      exact ih hn

end Returned

/-! ### Transactions -/

section Transactions

variable {ls} {env} {s : Running} {c : Cache} {addr : Addr} {n : ℕ}

theorem le_sent_evictLine (addr : Addr) (c : Cache) (n : ℕ) : n < (evictLine ls env addr c n).sent := by
  unfold evictLine evict
  dsimp only
  split_ifs <;> dsimp only <;> omega

variable (ls env) in
theorem le_sent_beforeFetch (addr : Addr) (c : Cache) (n : ℕ) : n ≤ (beforeFetch ls env addr c n).sent := by
  unfold beforeFetch
  split
  · exact (le_sent_evictLine addr c n).le
  · exact le_rfl

/-- A line is not written only if its write fails. -/
theorem failed_of_unwritten (h : (beforeFetch ls env addr c n).written = false) :
    ∃ k, n ≤ k ∧ k < (beforeFetch ls env addr c n).sent ∧ ok env k = false := by
  unfold beforeFetch evictLine evict at h ⊢
  dsimp only at h ⊢
  split_ifs at h ⊢ <;> first | exact Bool.noConfusion h | exact ⟨n + 1, by omega, Nat.lt_succ_self _, h⟩ | exact ⟨n, le_rfl, Nat.lt_succ_self _, h⟩

theorem miss_sent (s : Running) : (s.miss ls env).sent = (beforeFetch ls env s.addr (s.fetchOf ls).1 s.sent).sent + 1 := by
  unfold Running.miss
  dsimp only
  split_ifs <;> rfl

theorem sent_le_step (s : Running) : s.sent ≤ (s.step ls env).sent := by
  have hmiss : s.sent ≤ (s.miss ls env).sent := by
    rw [miss_sent]
    have h := le_sent_beforeFetch ls env s.addr (s.fetchOf ls).1 s.sent
    omega
  have hshare : s.sent ≤ (s.share ls env).sent := by
    unfold Running.share cleanUnique evict Running.ret
    dsimp only
    split_ifs <;> dsimp only <;> omega
  unfold Running.step Running.storeStep Running.loadStep
  split_ifs <;> first | exact le_rfl | exact hmiss | exact hshare

theorem sent_le_run (s : Running) (n : ℕ) : s.sent ≤ (s.run ls env n).sent := by
  induction n with
  | zero => exact le_rfl
  | succ n ih =>
    rw [run_succ]
    exact ih.trans (sent_le_step _)

/-- A step for which a line in the way could not be written is a fetch. -/
theorem Unwritten.step (h : Unwritten ls env s) : s.step ls env = s.miss ls env := by
  obtain ⟨hr, hlt, hmon, hhit, -⟩ := h
  have hnot : ¬ s.returned = true := by rw [hr]; decide
  have hmiss : ¬ s.hit ls = true := by rw [hhit]; decide
  rw [Running.step, if_neg hnot]
  split
  · rename_i hw
    rw [Running.storeStep, if_pos hlt, if_neg, if_neg hmiss]
    rw [Bool.and_eq_true, Bool.not_eq_true', not_and]
    intro hx
    rw [hmon hw hx]
    decide
  · rw [Running.loadStep, if_pos hlt, if_neg hmiss]

end Transactions

/-- The first transaction fails. -/
def firstFails : Env := fun n =>
  { tr := {
      portId := 0, cmd := .read .readShared, address := 0, dataLength := 64, data := fun _ => 0, genattr := {}
      response := if n = 0 then .genericError else .ok } }

section Instead

variable {ls} {env} {s : Running} {c : Cache} {addr : Addr} {n : ℕ}

theorem response_ne_of_not_ok (h : ok env n = false) : (env n).tr.response ≠ .ok := of_decide_eq_false h

variable (ls) in
/-- While all fails, the lines stay as they are. -/
theorem lines_beforeFetch (hbad : ∀ k, n ≤ k → ok env k = false) (addr : Addr) (c : Cache) :
    (beforeFetch ls env addr c n).cache.lines = c.lines ∧ (beforeFetch ls env addr c n).cache.cacheSz = c.cacheSz := by
  have h₀ := response_ne_of_not_ok (hbad n le_rfl)
  have h₁ := response_ne_of_not_ok (hbad (n + 1) (by omega))
  have hev : ∀ (c : Cache) (k : ℕ), n ≤ k → (evict ls env addr c k).cache = c := fun c k hk => by
    rw [evict, if_neg (by rw [hbad k hk]; decide)]
  unfold beforeFetch evictLine
  simp only [Cache.writeclean, Cache.writeback, if_neg h₀, if_neg h₁]
  split_ifs
  · exact ⟨rfl, rfl⟩
  · rw [hev _ _ (by omega)]
    exact ⟨rfl, rfl⟩
  · exact ⟨rfl, rfl⟩
  · rw [hev _ _ le_rfl]
    exact ⟨rfl, rfl⟩
  · exact ⟨rfl, rfl⟩

/-- Snoops make no copy, and none unshared. -/
theorem snoopAll_spec (snoops : List (AC × Addr × Bool)) (c : Cache) (a : Addr) (sec : Bool) :
    ((snoopAll ls c snoops).inCache ls a sec = true → c.inCache ls a sec = true) ∧
      ((c.getLine ls a).shared = true → ((snoopAll ls c snoops).getLine ls a).shared = true) := by
  induction snoops generalizing c with
  | nil => exact ⟨id, id⟩
  | cons x snoops ih =>
    obtain ⟨hin, hsh⟩ := ih (snoopAnswer ls x.1 x.2.1 x.2.2 c).1
    refine ⟨fun h => inCache_snoopAnswer ls c (hin h), fun h => hsh ?_⟩
    rw [getLine_snoopAnswer]
    split
    · cases x.1 <;> first | exact h | rfl
    · exact h

theorem inCache_fillLine_of_not_ok {f : Fetch} {tr : Transaction} (h : tr.response ≠ .ok) (c : Cache) (addr : Addr) (sec : Bool) :
    (c.fillLine ls addr f tr).inCache ls addr sec = c.inCache ls addr sec := by
  rw [Cache.fillLine, if_neg h, inCache, getLine_setLine_self, inCache]

theorem inCache_congr {c c' : Cache} (hl : c'.lines = c.lines) (hs : c'.cacheSz = c.cacheSz) (a : Addr) (sec : Bool) :
    c'.inCache ls a sec = c.inCache ls a sec := by
  rw [inCache, inCache, getLine, getLine, lineIndex, lineIndex, getIndex, getIndex, hl, hs]

/-- The payload needs a transaction. -/
structure Waits (ls : LineSize) (s : Running) : Prop where
  running : s.returned = false
  more : s.pos < s.gp.dataLength
  nonExclusive : s.gp.isExclusive = false
  needs : s.hit ls = false ∨ s.gp.write = true ∧ s.cache.isUnique ls s.addr = false

/-- What a loop reads of a payload does not change with its exclusive response. -/
theorem handled_fields {gp G : Payload} {p : Prop} [Decidable p] {b : Bool} (hG : (if p then gp.setExclusiveHandled b else gp) = G) :
    G.addrAt = gp.addrAt ∧ G.dataLength = gp.dataLength ∧ G.write = gp.write ∧ G.getSecure = gp.getSecure ∧
      G.isExclusive = gp.isExclusive := by
  subst hG
  split
  · exact ⟨rfl, rfl, rfl, gp.setExclusiveHandled_getSecure b, gp.setExclusiveHandled_isExclusive b⟩
  · exact ⟨rfl, rfl, rfl, rfl, rfl⟩

theorem fetched_response (addr : Addr) (f : Fetch) (e : Sent) : (fetched ls env addr f e).response = (env e.sent).tr.response := by
  unfold fetched
  dsimp only
  split <;> rfl

variable (ls) in
theorem fetchOf_lines (s : Running) : (s.fetchOf ls).1.lines = s.cache.lines ∧ (s.fetchOf ls).1.cacheSz = s.cache.cacheSz := by
  unfold Running.fetchOf
  dsimp only
  split_ifs <;> exact ⟨rfl, rfl⟩

theorem Waits.miss (h : Waits ls s) (hbad : ∀ k, s.sent ≤ k → ok env k = false) (hhit : s.hit ls = false) : Waits ls (s.miss ls env) := by
  unfold Running.miss
  dsimp only
  generalize hG : (if (s.fetchOf ls).2 = .readShared then _ else s.gp) = G
  obtain ⟨haddr, hlen, -, hsec, hex⟩ := handled_fields hG
  rw [h.nonExclusive] at hex
  rw [if_neg (by rw [hex]; simp)]
  refine ⟨h.running, hlen ▸ h.more, hex, .inl ?_⟩
  -- the line would have been there before
  unfold Running.hit Running.addr at hhit ⊢
  dsimp only
  rw [haddr, hsec, fetch]
  dsimp only
  have hle := le_sent_beforeFetch ls env (s.gp.addrAt s.pos) (s.fetchOf ls).1 s.sent
  rw [inCache_fillLine_of_not_ok (by rw [fetched_response]; exact response_ne_of_not_ok (hbad _ hle))]
  obtain ⟨hl, hsz⟩ := lines_beforeFetch ls hbad (s.gp.addrAt s.pos) (s.fetchOf ls).1
  obtain ⟨hl', hsz'⟩ := fetchOf_lines ls s
  by_contra hin
  rw [Bool.not_eq_false] at hin
  have hold := (snoopAll_spec _ _ _ _).1 hin
  rw [inCache_congr (hl.trans hl') (hsz.trans hsz'), hhit] at hold
  cases hold

theorem Waits.share (h : Waits ls s) (hbad : ∀ k, s.sent ≤ k → ok env k = false) (hw : s.gp.write = true)
    (hu : s.cache.isUnique ls s.addr = false) : Waits ls (s.share ls env) := by
  have hclean : cleanUnique ls env s.addr s.cache s.sent = ⟨snoopAll ls s.cache (env s.sent).snoops, s.sent + 1, true⟩ := by
    rw [cleanUnique]
    exact if_neg (by rw [hbad _ le_rfl]; decide)
  unfold Running.share
  dsimp only
  rw [hclean]
  dsimp only
  generalize hG : (if ((snoopAll ls s.cache (env s.sent).snoops).getLine ls s.addr).valid = true then _ else s.gp) = G
  obtain ⟨haddr, hlen, hwr, -, hex⟩ := handled_fields hG
  rw [h.nonExclusive] at hex
  rw [if_neg (by rw [hex]; decide)]
  refine ⟨h.running, hlen ▸ h.more, hex, .inr ⟨hwr.trans hw, ?_⟩⟩
  -- a snoop shares the line, or takes it
  unfold Cache.isUnique Running.addr at hu ⊢
  dsimp only
  rw [haddr]
  rw [Bool.not_eq_false'] at hu ⊢
  exact (snoopAll_spec _ _ _ true).2 hu

theorem Waits.step (h : Waits ls s) (hbad : ∀ k, s.sent ≤ k → ok env k = false) : Waits ls (s.step ls env) := by
  have hnot : ¬ s.returned = true := by rw [h.running]; decide
  rw [Running.step, if_neg hnot]
  split
  · rename_i hw
    rw [Running.storeStep, if_pos h.more, if_neg (by rw [h.nonExclusive, Bool.false_and]; decide)]
    split
    · rename_i hhit
      have hu : s.cache.isUnique ls s.addr = false := by
        rcases h.needs with hn | ⟨-, hu⟩
        · rw [hn] at hhit
          cases hhit
        · exact hu
      rw [if_neg (by rw [hu]; decide)]
      exact h.share hbad hw hu
    · rename_i hhit
      exact h.miss hbad (Bool.eq_false_iff.2 hhit)
  · rename_i hw
    have hhit : s.hit ls = false := h.needs.resolve_right fun hn => hw hn.1
    rw [Running.loadStep, if_pos h.more, if_neg (by rw [hhit]; decide)]
    exact h.miss hbad hhit

/-- **It is tried for ever**, while all fails. -/
theorem not_returned (h : Waits ls s) (hbad : ∀ k, s.sent ≤ k → ok env k = false) (n : ℕ) : (s.run ls env n).returned = false := by
  induction n generalizing s with
  | zero => exact h.running
  | succ n ih =>
    rw [Running.run, Function.iterate_succ_apply]
    exact ih (h.step hbad) fun k hk => hbad k ((sent_le_step s).trans hk)

/-- A load that needs a line, all of whose transactions fail. -/
theorem not_returned_load : ((Running.start { cacheSz := 4096, lines := fun _ => {} } { write := false, address := 0, dataLength := 4, data := fun _ => 0 }).run
    .default (fun _ => firstFails 0) 100).returned = false :=
  not_returned ⟨rfl, by decide, rfl, .inl rfl⟩ (fun _ _ => rfl) 100

/-- A line that could not be written is where it was. -/
theorem beforeFetch_unwritten (h : (beforeFetch ls env addr c n).written = false) :
    (beforeFetch ls env addr c n).cache.getLine ls addr = c.getLine ls addr ∧ (c.getLine ls addr).valid = true ∧
      (c.getLine ls addr).dirty = true := by
  unfold beforeFetch at h ⊢
  split at h
  swap
  · cases h
  rename_i hv
  rw [if_pos hv]
  unfold evictLine at h ⊢
  split at h
  swap
  · cases h
  rename_i hd
  rw [if_pos hd]
  refine ⟨?_, hv, hd⟩
  have hwb : ∀ (c' : Cache) (k : ℕ), ok env k = false → c'.writeback ls addr (env k).tr = c' := fun c' k hk =>
    if_neg (response_ne_of_not_ok hk)
  dsimp only at h ⊢
  split at h
  · rename_i ht
    rw [if_pos ht]
    split at h
    · rename_i hd'
      rw [if_pos hd']
      dsimp only at h ⊢
      rw [hwb _ _ h]
      -- its `WriteClean` has failed too
      unfold Cache.writeclean at hd' ⊢
      split at hd'
      · rw [getLine_setLine_self] at hd'
        cases hd'
      · rename_i hne
        rw [if_neg hne]
        rfl
    · cases h
  · rename_i ht
    rw [if_neg ht]
    dsimp only at h ⊢
    rw [hwb _ _ h]
    rfl

/-- The line behind such a fetch, if no snoop has asked for it. -/
theorem Unwritten.getLine (h : Unwritten ls env s)
    (hs : (env (beforeFetch ls env s.addr (s.fetchOf ls).1 s.sent).sent).snoops = []) :
    (s.step ls env).cache.getLine ls s.addr =
      ((beforeFetch ls env s.addr (s.fetchOf ls).1 s.sent).cache.fillLine ls s.addr (s.fetchOf ls).2
        (fetched ls env s.addr (s.fetchOf ls).2 (beforeFetch ls env s.addr (s.fetchOf ls).1 s.sent))).getLine ls s.addr := by
  have hmon : ∀ (c : Cache) (a b : Addr), (c.monitorSet a).getLine ls b = c.getLine ls b := by
    intro c a b
    unfold monitorSet
    split <;> rfl
  have hsnoop : ∀ c, snoopAll ls c (env (beforeFetch ls env s.addr (s.fetchOf ls).1 s.sent).sent).snoops = c := fun c => by
    rw [hs]
    rfl
  rw [h.step]
  unfold Running.miss
  dsimp only
  generalize (if (s.fetchOf ls).2 = .readShared then _ else s.gp) = G
  split_ifs
  · dsimp only
    rw [hmon, fetch]
    dsimp only
    rw [hsnoop]
  · rw [fetch]
    dsimp only
    rw [hsnoop]

/-- **A line that could not be written is kept, while its fetch fails too, exactly if that has read nothing else into the buffer.** -/
theorem kept_iff (h : Unwritten ls env s) (hs : (env (beforeFetch ls env s.addr (s.fetchOf ls).1 s.sent).sent).snoops = [])
    (hbad : ok env (beforeFetch ls env s.addr (s.fetchOf ls).1 s.sent).sent = false) :
    Kept ls env s ↔ ((s.fetchOf ls).2 ≠ .makeUnique → ∀ o < ls.size,
      (env (beforeFetch ls env s.addr (s.fetchOf ls).1 s.sent).sent).tr.data o = (s.cache.getLine ls s.addr).data o) := by
  obtain ⟨hl, hv, hd⟩ := beforeFetch_unwritten h.2.2.2.2
  have hold : (s.fetchOf ls).1.getLine ls s.addr = s.cache.getLine ls s.addr := by
    obtain ⟨hlines, hsz⟩ := fetchOf_lines ls s
    rw [Cache.getLine, Cache.getLine, lineIndex, lineIndex, getIndex, getIndex, hlines, hsz]
  rw [hold] at hl hv hd
  have hline : (s.step ls env).cache.getLine ls s.addr = { s.cache.getLine ls s.addr with
      data := (fetched ls env s.addr (s.fetchOf ls).2 (beforeFetch ls env s.addr (s.fetchOf ls).1 s.sent)).data } := by
    rw [h.getLine hs, Cache.fillLine, if_neg (by rw [fetched_response]; exact response_ne_of_not_ok hbad), getLine_setLine_self, hl]
  unfold Kept
  dsimp only
  rw [hline]
  constructor
  · intro hk hf o ho
    rw [← (hk h hs).2.2.2 o ho, fetched]
    exact congrArg (fun t : Transaction => t.data o) (if_neg hf).symm
  · intro hdata _ _
    refine ⟨hv, hd, rfl, fun o ho => ?_⟩
    by_cases hf : (s.fetchOf ls).2 = .makeUnique
    · rw [fetched]
      dsimp only
      rw [if_pos hf, hs]
      exact congrArg (fun l : CacheLine => l.data o) hl
    · rw [← hdata hf o ho, fetched]
      exact congrArg (fun t : Transaction => t.data o) (if_neg hf)

/-- If its fetch does not fail, then the line is another one. -/
theorem tag_of_fetched (h : Unwritten ls env s) (hs : (env (beforeFetch ls env s.addr (s.fetchOf ls).1 s.sent).sent).snoops = [])
    (hgood : ok env (beforeFetch ls env s.addr (s.fetchOf ls).1 s.sent).sent = true) :
    ((s.step ls env).cache.getLine ls s.addr).tag = ls.getTag s.addr := by
  have hok := of_decide_eq_true hgood
  rw [h.getLine hs, Cache.fillLine, if_pos (by rw [fetched_response]; exact hok), getLine_setLine_self]

end Instead

end LibSystemCTLM.Ace.ErrorPath
