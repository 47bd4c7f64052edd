import LibSystemCTLM.Pcie.QdmaSteps

/-!
# The descriptor rings of the QDMA

For each producer index `run_mm_dma` goes through the descriptors from the consumer index on, round the ring, up to
it, copies what each says, leaves the consumer index there and reports it. This holds along every run
(`descRing_of_run`) whose steps are `Fair`: the indices are within the ring that is programmed, which is checked of one of
them and with an error that need not stop it; queue numbers are below the count, which a comparison that is off by
one and interrupt rings do not check; the descriptors are long enough to have a destination; the accesses succeed;
and as data is copied in words, a count that is not a whole number of them finds the rest at its destination.
-/

namespace LibSystemCTLM.Qdma

open Foundation Tlm

/-! ### Rings -/

/-- How far it is from one place of a ring to another. -/
def dist (n a b : ℕ) : ℕ := (b + n - a) % n

/-- So many places of a ring, from one on. -/
def ringFrom (n start k : ℕ) : List ℕ := (List.range k).map fun i => (start + i) % n

theorem ringFrom_succ (n start k : ℕ) : ringFrom n start (k + 1) = ringFrom n start k ++ [(start + k) % n] := by
  rw [ringFrom, List.range_succ, List.map_append, List.map_singleton, ringFrom]

theorem dist_self {n a : ℕ} : dist n a a = 0 := by rw [dist, Nat.add_sub_cancel_left, Nat.mod_self]

theorem dist_next {n a b : ℕ} (ha : a < n) (hb : b < n) (hne : a ≠ b) : dist n ((a + 1) % n) b + 1 = dist n a b := by
  rcases Nat.lt_or_gt_of_ne hne with hlt | hgt
  · rw [Nat.mod_eq_of_lt (show a + 1 < n by omega), dist, dist, show b + n - (a + 1) = b - (a + 1) + n by omega,
      show b + n - a = b - a + n by omega, Nat.add_mod_right, Nat.add_mod_right, Nat.mod_eq_of_lt (by omega), Nat.mod_eq_of_lt (by omega)]
    omega
  · rcases Nat.eq_or_lt_of_le (show a + 1 ≤ n from ha) with hend | hend
    · rw [hend, Nat.mod_self, dist, dist, Nat.sub_zero, Nat.add_mod_right, Nat.mod_eq_of_lt hb, Nat.mod_eq_of_lt (by omega)]
      omega
    · rw [Nat.mod_eq_of_lt hend, dist, dist, Nat.mod_eq_of_lt (by omega), Nat.mod_eq_of_lt (by omega)]
      omega

/-! ### The property -/

/-- The bytes from an address on. -/
def slot (mem : Addr → Byte) (a : Addr) : ℕ → Byte := fun k => mem (a + BitVec.ofNat 64 k)

/-- The turn copied what its descriptor says, and changed nothing else. -/
def Visit.Exact (c : Ctx) (h2c : Bool) (v : Visit) : Prop :=
  let desc := slot v.host (SwCtx.descAddr c v.idx.toNat)
  if h2c = true then
    v.card' = storeBytes v.card (dstAddress desc) (loadBytes v.host (srcAddress desc) (byteCount desc)) ∧ v.host' = v.host
  else v.host' = storeBytes v.host (dstAddress desc) (loadBytes v.card (srcAddress desc) (byteCount desc)) ∧ v.card' = v.card

/-- The status that is reported, over what was in its descriptor. -/
def statusBytes (c : Ctx) (mem : Addr → Byte) (pidx : BitVec 16) : List Byte :=
  (List.range (SwCtx.descSize c)).map (statusDesc (slot mem (SwCtx.descAddr c (SwCtx.ringSize c))) pidx pidx)

/-- `run_mm_dma` did what it is for. -/
structure Run.Right (r : Run) : Prop where
  cidx : r.cidx = r.pidx
  order : r.visits.map (fun v => v.idx.toNat) = ringFrom (SwCtx.ringSize r.sw) r.start.toNat (dist (SwCtx.ringSize r.sw) r.start.toNat r.pidx.toNat)
  exact : ∀ v ∈ r.visits, v.Exact r.sw r.h2c
  status : r.visits ≠ [] → r.status = none ∧ SwCtx.writebackEn r.sw = false ∨ SwCtx.writebackEn r.sw = true ∧
    ∃ before, r.status = some (before, storeBytes before (SwCtx.descAddr r.sw (SwCtx.ringSize r.sw)) (statusBytes r.sw before r.pidx))

/-- **The rings are right.** -/
structure Good (cfg : Cfg) (s : State) : Prop where
  runs : ∀ r ∈ s.runs, r.Right
  undisturbed : s.disturbed = false
  terminates : s.busy ≠ none → ∃ n s', run (step cfg) s (List.replicate n .iterate) = some s' ∧ s'.busy = none

/-! ### The steps that are not left out -/

/-- A producer index for a queue. -/
def FairPidx (cfg : Cfg) (s : State) (q : Queue) (h2c : Bool) (v : BitVec 32) : Prop :=
  (v.setWidth 16).toNat < SwCtx.ringSize (s.sw q h2c) ∧ (s.cidx q h2c).toNat < SwCtx.ringSize (s.sw q h2c) ∨
    cfg.throws = true ∧ SwCtx.ringSize (s.sw q h2c) ≤ (v.setWidth 16).toNat ∧ SwCtx.pidx (s.sw q h2c) = v.setWidth 16

/-- A turn, with the words that its descriptor has copied from a bus to another. -/
structure FairTurn (cfg : Cfg) (init tgt : Bus) (src mem : Addr → Byte) (c : Ctx) (i : BitVec 16) (desc : ℕ → Byte) : Prop where
  descSize : 32 ≤ SwCtx.descSize c
  fetch : ∀ k < SwCtx.descSize c / 4, cfg.hostBus.readOk (SwCtx.descAddr c i.toNat + BitVec.ofNat 64 (4 * k)) = true
  copy : ∀ k < (byteCount desc + 3) / 4, init.readOk (srcAddress desc + BitVec.ofNat 64 (4 * k)) = true ∧
    tgt.writeOk (dstAddress desc + BitVec.ofNat 64 (4 * k)) = true
  tail : ∀ k < 4 * ((byteCount desc + 3) / 4), byteCount desc ≤ k →
    mem (dstAddress desc + BitVec.ofNat 64 k) = src (srcAddress desc + BitVec.ofNat 64 k)
  status : SwCtx.pidx c = State.nextCidx (SwCtx.ringSize c) i → SwCtx.writebackEn c = true →
    (∀ k < SwCtx.descSize c / 4, cfg.hostBus.readOk (SwCtx.descAddr c (SwCtx.ringSize c) + BitVec.ofNat 64 (4 * k)) = true) ∧
      cfg.hostBus.writeOk (SwCtx.descAddr c (SwCtx.ringSize c)) = true

/-- The turn of the loop that comes next. -/
def FairIterate (cfg : Cfg) (s : State) (b : Busy) : Prop :=
  let c := s.sw b.qid b.h2c
  let i := s.cidx b.qid b.h2c
  let desc := slot s.host (SwCtx.descAddr c i.toNat)
  SwCtx.pidx c ≠ i →
    if b.h2c = true then FairTurn cfg cfg.hostBus cfg.cardBus s.host s.card c i desc
    else FairTurn cfg cfg.cardBus cfg.hostBus s.card s.host c i desc

def Fair (cfg : Cfg) (s : State) : Act → Prop
  | .pidx qid h2c v _ _ => qid ≤ queueCount → ∃ h : qid < queueCount, FairPidx cfg s ⟨qid, h⟩ h2c v
  | .cmd v => (v.extractLsb' 1 4).toNat = selIntCoal → (v.extractLsb' 7 13).toNat < queueCount
  | .iterate => ∀ b, s.busy = some b → FairIterate cfg s b
  | _ => True

/-! ### The loop -/

/-- What the loop goes by. -/
structure LoopOk (s : State) (b : Busy) : Prop where
  pidx : SwCtx.pidx (s.sw b.qid b.h2c) = b.pidx
  pidx_lt : b.pidx.toNat < SwCtx.ringSize (s.sw b.qid b.h2c)
  cidx_lt : (s.cidx b.qid b.h2c).toNat < SwCtx.ringSize (s.sw b.qid b.h2c)

/-- How many turns are left. -/
def left (s : State) (b : Busy) : ℕ := dist (SwCtx.ringSize (s.sw b.qid b.h2c)) (s.cidx b.qid b.h2c).toNat b.pidx.toNat

variable {cfg : Cfg} {s s' : State} {b : Busy}

theorem toNat_nextCidx {n : ℕ} {i : BitVec 16} (hn : n ≤ 16384) (hi : i.toNat < n) : (State.nextCidx n i).toNat = (i.toNat + 1) % n := by
  rw [State.nextCidx]
  split_ifs with hlast
  · rw [hlast, show n - 1 + 1 = n by omega, Nat.mod_self]
    rfl
  · rw [BitVec.toNat_add, show BitVec.toNat (1 : BitVec 16) = 1 from rfl, Nat.mod_eq_of_lt (by omega), Nat.mod_eq_of_lt (by omega)]

theorem selSw_ne_selHw (h2c h2c' : Bool) : selSw h2c ≠ selHw h2c' := by cases h2c <;> cases h2c' <;> decide

/-- The index of the queue goes on, and nothing else changes of what the loop goes by. -/
theorem sw_setCidx (q : Queue) (h2c : Bool) (v : BitVec 16) :
    (s.setCtx q (selHw h2c) (HwCtx.setCidx (s.ctx q (selHw h2c)) v)).sw q h2c = s.sw q h2c := by
  rw [State.sw, State.setCtx]
  simp only [Function.update_self]
  rw [Function.update_of_ne (selSw_ne_selHw h2c h2c), State.sw]

theorem cidx_setCidx (q : Queue) (h2c : Bool) (v : BitVec 16) :
    (s.setCtx q (selHw h2c) (HwCtx.setCidx (s.ctx q (selHw h2c)) v)).cidx q h2c = v := by
  rw [State.cidx, State.setCtx]
  simp only [Function.update_self, HwCtx.cidx_setCidx]

/-- The loop ends with `complete`, whatever happens there. -/
theorem post_complete : Post (fun s' => s'.busy = none) (fun _ => True) (s.complete cfg b) := by
  rw [State.complete]
  split_ifs
  · refine Post.bind (P := fun _ => True) ((State.post_writeStatus b).mono (fun _ _ => trivial) fun _ _ => trivial) fun s' _ => ?_
    exact (State.post_interrupt b).mono (fun _ h => h.busy) fun _ _ => trivial
  · exact (State.post_interrupt b).mono (fun _ h => h.busy) fun _ _ => trivial

theorem left_setCidx (h : LoopOk s b) (hne : SwCtx.pidx (s.sw b.qid b.h2c) ≠ s.cidx b.qid b.h2c) (s₁ : State) (b₁ : Busy) (hctx : s₁.ctx = s.ctx)
    (hq : b₁.qid = b.qid) (hd : b₁.h2c = b.h2c) (hp : b₁.pidx = b.pidx) :
    let s₂ := s₁.setCtx b.qid (selHw b.h2c) (HwCtx.setCidx (s₁.ctx b.qid (selHw b.h2c)) (State.nextCidx (SwCtx.ringSize (s.sw b.qid b.h2c)) (s.cidx b.qid b.h2c)))
    LoopOk s₂ b₁ ∧ left s₂ b₁ + 1 = left s b := by
  intro s₂
  have hsw : s₂.sw b.qid b.h2c = s.sw b.qid b.h2c := by
    rw [show s₂.sw b.qid b.h2c = s₁.sw b.qid b.h2c from sw_setCidx _ _ _, State.sw, hctx, State.sw]
  have hcidx : s₂.cidx b.qid b.h2c = State.nextCidx (SwCtx.ringSize (s.sw b.qid b.h2c)) (s.cidx b.qid b.h2c) := cidx_setCidx _ _ _
  have hnext := toNat_nextCidx (SwCtx.ringSize_bounds (s.sw b.qid b.h2c)).2 h.cidx_lt
  have hne' : (s.cidx b.qid b.h2c).toNat ≠ b.pidx.toNat := fun h' => hne (h.pidx.trans (BitVec.eq_of_toNat_eq h'.symm))
  refine ⟨⟨?_, ?_, ?_⟩, ?_⟩
  · rw [hq, hd, hp, hsw]
    exact h.pidx
  · rw [hq, hd, hp, hsw]
    exact h.pidx_lt
  · rw [hq, hd, hsw, hcidx, hnext]
    exact Nat.mod_lt _ (SwCtx.ringSize_bounds _).1
  · rw [left, hq, hd, hp, hsw, hcidx, hnext]
    exact dist_next h.cidx_lt h.pidx_lt hne'

/-- A turn brings the loop nearer to its end, whatever the accesses return. -/
theorem post_iterate_left (h : LoopOk s b) :
    Post (fun s' => s'.busy = none ∨ ∃ b', s'.busy = some b' ∧ LoopOk s' b' ∧ left s' b' + 1 = left s b ∧ s'.fault = s.fault)
      (fun _ => True) (s.iterate cfg b) := by
  rw [State.iterate]
  split_ifs with heq
  · exact .inl rfl
  refine Post.bind (P := fun _ => True) ((State.post_fetchDescriptor _ _ _).mono (fun _ _ => trivial) fun _ _ => trivial) fun desc _ => ?_
  refine Post.bind (P := State.SameButMemory s) ((State.post_doMmDma _ _ _ _).mono (fun _ h => h) fun _ _ => trivial) fun s₁ hsame => ?_
  have hsw : s₁.sw b.qid b.h2c = s.sw b.qid b.h2c := by rw [State.sw, hsame.ctx, State.sw]
  have hcidx : s₁.cidx b.qid b.h2c = s.cidx b.qid b.h2c := by rw [State.cidx, hsame.ctx, State.cidx]
  rw [State.advance]
  simp only [hsw, hcidx]
  split_ifs
  · exact post_complete.mono (fun _ h => .inl h) fun _ h => h
  · obtain ⟨hloop, hleft⟩ := left_setCidx h heq s₁
      { b with desc := desc, visits := b.visits ++ [⟨s.cidx b.qid b.h2c, s.host, s.card, s₁.host, s₁.card⟩] } hsame.ctx rfl rfl rfl
    exact .inr ⟨_, rfl, ⟨hloop.pidx, hloop.pidx_lt, hloop.cidx_lt⟩, hleft, hsame.fault⟩

theorem step_iterate (hfault : s.fault = none) (hbusy : s.busy = some b) : step cfg s .iterate = some (State.caught (s.iterate cfg b)) := by
  rw [step, if_pos hfault, State.act, hbusy, Option.map_some]

/-- **`run_mm_dma` terminates.** -/
theorem terminates (hfault : s.fault = none) (hbusy : s.busy = some b) (h : LoopOk s b) :
    ∃ n s', run (step cfg) s (List.replicate n .iterate) = some s' ∧ s'.busy = none := by
  generalize hn : left s b = n
  induction n generalizing s b with
  | zero =>
    have hpost : Post _ _ (s.iterate cfg b) := post_iterate_left h
    refine ⟨1, State.caught (s.iterate cfg b), by simp [run, step_iterate hfault hbusy], ?_⟩
    cases hres : s.iterate cfg b with
    | error s' => rfl
    | ok s' =>
      rw [hres] at hpost
      rcases hpost with hnone | ⟨b', -, -, hleft, -⟩
      · exact hnone
      · omega
  | succ n ih =>
    have hpost : Post _ _ (s.iterate cfg b) := post_iterate_left h
    have hstep : step cfg s .iterate = _ := step_iterate hfault hbusy
    cases hres : s.iterate cfg b with
    | error s' =>
      rw [hres] at hstep
      exact ⟨1, State.caught (.error s'), by simp [run, hstep], rfl⟩
    | ok s' =>
      rw [hres] at hpost hstep
      rcases hpost with hnone | ⟨b', hb', hloop, hleft, hf⟩
      · exact ⟨1, s', by simp [run, hstep, State.caught], hnone⟩
      · obtain ⟨k, s'', hrun, hnone⟩ := ih (hf.trans hfault) hb' hloop (by omega)
        refine ⟨k + 1, s'', ?_, hnone⟩
        rw [List.replicate_succ, run, hstep]
        exact hrun

/-! ### A turn that is not left out -/

/-- Where `run_mm_dma` stands. -/
structure BusyOk (s : State) (b : Busy) : Prop extends LoopOk s b where
  order : b.visits.map (fun v => v.idx.toNat) = ringFrom (SwCtx.ringSize (s.sw b.qid b.h2c)) b.start.toNat b.visits.length
  here : (s.cidx b.qid b.h2c).toNat = (b.start.toNat + b.visits.length) % SwCtx.ringSize (s.sw b.qid b.h2c)
  turns : b.visits.length + left s b = dist (SwCtx.ringSize (s.sw b.qid b.h2c)) b.start.toNat b.pidx.toNat
  exact : ∀ v ∈ b.visits, v.Exact (s.sw b.qid b.h2c) b.h2c

theorem BusyOk.congr (h : BusyOk s b) (hctx : s'.ctx = s.ctx) : BusyOk s' b := by
  have hsw : s'.sw b.qid b.h2c = s.sw b.qid b.h2c := by rw [State.sw, hctx, State.sw]
  have hcidx : s'.cidx b.qid b.h2c = s.cidx b.qid b.h2c := by rw [State.cidx, hctx, State.cidx]
  refine ⟨⟨?_, ?_, ?_⟩, ?_, ?_, ?_, ?_⟩
  · exact hsw ▸ h.pidx
  · exact hsw ▸ h.pidx_lt
  · rw [hsw, hcidx]
    exact h.cidx_lt
  · exact hsw ▸ h.order
  · rw [hsw, hcidx]
    exact h.here
  · rw [left, hsw, hcidx]
    exact h.turns
  · exact hsw ▸ h.exact

/-- The runs that a step adds are right. -/
structure Ran (s s' : State) : Prop where
  disturbed : s'.disturbed = s.disturbed
  runs : ∀ r ∈ s'.runs, r ∈ s.runs ∨ r.Right

theorem Ran.of_same (h : State.SameRuns s s') : Ran s s' := ⟨h.disturbed, fun _ hr => .inl (h.runs ▸ hr)⟩

/-- An interrupt comes behind a run that is recorded. -/
theorem Ran.interrupt {s₁ : State} (h : Ran s s₁) : Post (fun s' => Ran s s' ∧ s'.busy = s₁.busy) (Ran s) (s₁.interrupt cfg b) :=
  (State.post_interrupt b).mono (fun _ h' => ⟨⟨h'.disturbed.trans h.disturbed, fun r hr => h.runs r (h'.runs ▸ hr)⟩, h'.busy⟩)
    fun _ h' => ⟨h'.disturbed.trans h.disturbed, fun r hr => h.runs r (h'.runs ▸ hr)⟩

theorem ran_record {status : Option ((Addr → Byte) × (Addr → Byte))} {s₁ : State} (hsame : State.SameButMemory s s₁)
    (h : Run.Right ⟨s.sw b.qid b.h2c, b.h2c, b.start, b.pidx, s.cidx b.qid b.h2c, b.visits, status⟩) : Ran s (s₁.record b status) := by
  refine ⟨hsame.disturbed, fun r hr => ?_⟩
  rcases List.mem_append.1 hr with hr | hr
  · exact .inl (hsame.runs ▸ hr)
  · rw [List.mem_singleton.1 hr]
    have hsw : s₁.sw b.qid b.h2c = s.sw b.qid b.h2c := by rw [State.sw, hsame.ctx, State.sw]
    have hcidx : s₁.cidx b.qid b.h2c = s.cidx b.qid b.h2c := by rw [State.cidx, hsame.ctx, State.cidx]
    rw [hsw, hcidx]
    exact .inr h

theorem four_mul_descSize (c : Ctx) : 4 * (SwCtx.descSize c / 4) = SwCtx.descSize c := by
  have hall : ∀ i : Fin 4, 4 * ((8 <<< i.val) / 4) = 8 <<< i.val := by decide
  exact hall ⟨(c.extractLsb' 48 2).toNat, (c.extractLsb' 48 2).isLt⟩

theorem byteCount_lt (desc : ℕ → Byte) : byteCount desc < 2 ^ 28 := by
  rw [byteCount, BitVec.toNat_and]
  exact Nat.lt_of_le_of_lt Nat.and_le_right (by decide)

/-- The descriptor, where its accesses succeed. -/
theorem fetchDescriptor_eq {addr : Addr} {size : ℕ} (hsize : 4 * (size / 4) = size) (desc : ℕ → Byte)
    (h : ∀ k < size / 4, cfg.hostBus.readOk (addr + BitVec.ofNat 64 (4 * k)) = true) :
    ∃ desc', s.fetchDescriptor cfg addr size desc = .ok desc' ∧ ∀ k < size, desc' k = slot s.host addr k := by
  have hfetch : s.fetchDescriptor cfg addr size desc =
      .ok fun k => if 0 ≤ k ∧ k < 0 + 4 * (size / 4) then s.host (addr + BitVec.ofNat 64 k) else desc k := by
    rw [State.fetchDescriptor, fetchWords_eq (size / 4) 0 desc (by simpa using h)]
  refine ⟨_, hfetch, fun k hk => ?_⟩
  rw [if_pos (by omega), slot]

/-- The members of a descriptor lie in its first bytes. -/
theorem members_congr {desc desc' : ℕ → Byte} (h : ∀ k < 32, desc k = desc' k) :
    srcAddress desc = srcAddress desc' ∧ dstAddress desc = dstAddress desc' ∧ byteCount desc = byteCount desc' := by
  simp [srcAddress, dstAddress, byteCount, word64, word32, h]

theorem statusDesc_congr {desc desc' : ℕ → Byte} {cidx pidx : BitVec 16} {k : ℕ} (h : desc k = desc' k) :
    statusDesc desc cidx pidx k = statusDesc desc' cidx pidx k := by
  unfold statusDesc
  split <;> simp_all

/-- A transfer to the card, where its accesses succeed. -/
theorem doMmDma_h2c {src dst : Addr} {n : ℕ} (hn : n < 2 ^ 28)
    (hcopy : ∀ k < (n + 3) / 4, cfg.hostBus.readOk (src + BitVec.ofNat 64 (4 * k)) = true ∧ cfg.cardBus.writeOk (dst + BitVec.ofNat 64 (4 * k)) = true)
    (htail : ∀ k < 4 * ((n + 3) / 4), n ≤ k → s.card (dst + BitVec.ofNat 64 k) = s.host (src + BitVec.ofNat 64 k)) :
    s.doMmDma cfg src dst n true = .ok { s with card := storeBytes s.card dst (loadBytes s.host src n) } := by
  rw [State.doMmDma, if_pos rfl, copyWords_eq _ _ _ _ (by omega) hcopy, storeBytes_words (by omega) htail]

theorem doMmDma_c2h {src dst : Addr} {n : ℕ} (hn : n < 2 ^ 28)
    (hcopy : ∀ k < (n + 3) / 4, cfg.cardBus.readOk (src + BitVec.ofNat 64 (4 * k)) = true ∧ cfg.hostBus.writeOk (dst + BitVec.ofNat 64 (4 * k)) = true)
    (htail : ∀ k < 4 * ((n + 3) / 4), n ≤ k → s.host (dst + BitVec.ofNat 64 k) = s.card (src + BitVec.ofNat 64 k)) :
    s.doMmDma cfg src dst n false = .ok { s with host := storeBytes s.host dst (loadBytes s.card src n) } := by
  rw [State.doMmDma, if_neg (by decide), copyWords_eq _ _ _ _ (by omega) hcopy, storeBytes_words (by omega) htail]

theorem writeStatus_eq (hidx : s.cidx b.qid b.h2c = b.pidx)
    (h : (∀ k < SwCtx.descSize (s.sw b.qid b.h2c) / 4, cfg.hostBus.readOk (SwCtx.descAddr (s.sw b.qid b.h2c)
        (SwCtx.ringSize (s.sw b.qid b.h2c)) + BitVec.ofNat 64 (4 * k)) = true) ∧
      cfg.hostBus.writeOk (SwCtx.descAddr (s.sw b.qid b.h2c) (SwCtx.ringSize (s.sw b.qid b.h2c))) = true) :
    s.writeStatus cfg b = .ok { s with
      host := storeBytes s.host (SwCtx.descAddr (s.sw b.qid b.h2c) (SwCtx.ringSize (s.sw b.qid b.h2c)))
        (statusBytes (s.sw b.qid b.h2c) s.host b.pidx) } := by
  obtain ⟨desc, hfetch, hdesc⟩ := fetchDescriptor_eq (four_mul_descSize (s.sw b.qid b.h2c)) b.desc h.1
  have hbytes : (List.range (SwCtx.descSize (s.sw b.qid b.h2c))).map (statusDesc desc (s.cidx b.qid b.h2c) b.pidx) =
      statusBytes (s.sw b.qid b.h2c) s.host b.pidx := by
    rw [hidx]
    exact List.map_congr_left fun k hk => statusDesc_congr (hdesc k (List.mem_range.1 hk))
  simp only [State.writeStatus, hfetch]
  rw [← hbytes]
  exact if_pos h.2

theorem ran_complete (h : BusyOk s b) (hdone : s.cidx b.qid b.h2c = b.pidx)
    (hstatus : SwCtx.writebackEn (s.sw b.qid b.h2c) = true →
      (∀ k < SwCtx.descSize (s.sw b.qid b.h2c) / 4, cfg.hostBus.readOk (SwCtx.descAddr (s.sw b.qid b.h2c)
        (SwCtx.ringSize (s.sw b.qid b.h2c)) + BitVec.ofNat 64 (4 * k)) = true) ∧
      cfg.hostBus.writeOk (SwCtx.descAddr (s.sw b.qid b.h2c) (SwCtx.ringSize (s.sw b.qid b.h2c))) = true) :
    Post (fun s' => Ran s s' ∧ s'.busy = none) (Ran s) (s.complete cfg b) := by
  have hall : b.visits.length = dist (SwCtx.ringSize (s.sw b.qid b.h2c)) b.start.toNat b.pidx.toNat := by
    have hturns := h.turns
    rwa [left, hdone, dist_self, Nat.add_zero] at hturns
  rw [State.complete]
  split_ifs with hwb
  · let s₁ : State := { s with
      host := storeBytes s.host (SwCtx.descAddr (s.sw b.qid b.h2c) (SwCtx.ringSize (s.sw b.qid b.h2c)))
        (statusBytes (s.sw b.qid b.h2c) s.host b.pidx) }
    have hran : Ran s (s₁.record b (some (s.host, s₁.host))) :=
      ran_record ⟨rfl, rfl, rfl, rfl, rfl, rfl, rfl, rfl⟩ ⟨hdone, hall ▸ h.order, h.exact, fun _ => .inr ⟨hwb, s.host, rfl⟩⟩
    have hwrite : s.writeStatus cfg b = .ok s₁ := writeStatus_eq hdone (hstatus hwb)
    rw [hwrite]
    exact hran.interrupt
  · have hran : Ran s (s.record b none) :=
      ran_record ⟨rfl, rfl, rfl, rfl, rfl, rfl, rfl, rfl⟩ ⟨hdone, hall ▸ h.order, h.exact, fun _ => .inl ⟨rfl, by simpa using hwb⟩⟩
    exact hran.interrupt

theorem exact_turn (hfair : FairIterate cfg s b) (hne : SwCtx.pidx (s.sw b.qid b.h2c) ≠ s.cidx b.qid b.h2c) :
    ∃ desc s₁, s.fetchDescriptor cfg (SwCtx.descAddr (s.sw b.qid b.h2c) (s.cidx b.qid b.h2c).toNat) (SwCtx.descSize (s.sw b.qid b.h2c)) b.desc = .ok desc ∧
      s.doMmDma cfg (srcAddress desc) (dstAddress desc) (byteCount desc) b.h2c = .ok s₁ ∧ State.SameButMemory s s₁ ∧
      Visit.Exact (s.sw b.qid b.h2c) b.h2c ⟨s.cidx b.qid b.h2c, s.host, s.card, s₁.host, s₁.card⟩ := by
  have hturn := hfair hne
  cases hd : b.h2c with
  | true =>
    rw [hd, if_pos rfl] at hturn
    obtain ⟨desc, hfetch, hdesc⟩ := fetchDescriptor_eq (four_mul_descSize _) b.desc hturn.fetch
    obtain ⟨hsrc, hdst, hcount⟩ := members_congr fun k hk => hdesc k (Nat.lt_of_lt_of_le hk hturn.descSize)
    have hcopy := doMmDma_h2c (byteCount_lt _) hturn.copy hturn.tail
    rw [← hsrc, ← hdst, ← hcount] at hcopy
    exact ⟨desc, _, hfetch, hcopy, ⟨rfl, rfl, rfl, rfl, rfl, rfl, rfl, rfl⟩, by rw [hsrc, hdst, hcount], rfl⟩
  | false =>
    rw [hd, if_neg (by decide)] at hturn
    obtain ⟨desc, hfetch, hdesc⟩ := fetchDescriptor_eq (four_mul_descSize _) b.desc hturn.fetch
    obtain ⟨hsrc, hdst, hcount⟩ := members_congr fun k hk => hdesc k (Nat.lt_of_lt_of_le hk hturn.descSize)
    have hcopy := doMmDma_c2h (byteCount_lt _) hturn.copy hturn.tail
    rw [← hsrc, ← hdst, ← hcount] at hcopy
    exact ⟨desc, _, hfetch, hcopy, ⟨rfl, rfl, rfl, rfl, rfl, rfl, rfl, rfl⟩, by rw [hsrc, hdst, hcount], rfl⟩

/-- The status is written with accesses that succeed. -/
theorem status_of_fair (hfair : FairIterate cfg s b) (hne : SwCtx.pidx (s.sw b.qid b.h2c) ≠ s.cidx b.qid b.h2c)
    (hlast : SwCtx.pidx (s.sw b.qid b.h2c) = State.nextCidx (SwCtx.ringSize (s.sw b.qid b.h2c)) (s.cidx b.qid b.h2c))
    (hwb : SwCtx.writebackEn (s.sw b.qid b.h2c) = true) :
    (∀ k < SwCtx.descSize (s.sw b.qid b.h2c) / 4, cfg.hostBus.readOk (SwCtx.descAddr (s.sw b.qid b.h2c)
        (SwCtx.ringSize (s.sw b.qid b.h2c)) + BitVec.ofNat 64 (4 * k)) = true) ∧
      cfg.hostBus.writeOk (SwCtx.descAddr (s.sw b.qid b.h2c) (SwCtx.ringSize (s.sw b.qid b.h2c))) = true := by
  have hturn := hfair hne
  split_ifs at hturn
  · exact hturn.status hlast hwb
  · exact hturn.status hlast hwb

/-- Where `run_mm_dma` stands at the top of the loop: a turn that was taken did not end it. -/
structure AtLoop (s : State) (b : Busy) : Prop extends BusyOk s b where
  going : b.visits ≠ [] → SwCtx.pidx (s.sw b.qid b.h2c) ≠ s.cidx b.qid b.h2c

theorem busyOk_turn (h : BusyOk s b) (hne : SwCtx.pidx (s.sw b.qid b.h2c) ≠ s.cidx b.qid b.h2c) {s₁ : State} (hsame : State.SameButMemory s s₁)
    {desc : ℕ → Byte} (hexact : Visit.Exact (s.sw b.qid b.h2c) b.h2c ⟨s.cidx b.qid b.h2c, s.host, s.card, s₁.host, s₁.card⟩) :
    BusyOk (s₁.setCtx b.qid (selHw b.h2c) (HwCtx.setCidx (s₁.ctx b.qid (selHw b.h2c))
        (State.nextCidx (SwCtx.ringSize (s.sw b.qid b.h2c)) (s.cidx b.qid b.h2c))))
      { b with desc := desc, visits := b.visits ++ [⟨s.cidx b.qid b.h2c, s.host, s.card, s₁.host, s₁.card⟩] } := by
  obtain ⟨hloop, hleft⟩ := left_setCidx h.toLoopOk hne s₁
    { b with desc := desc, visits := b.visits ++ [⟨s.cidx b.qid b.h2c, s.host, s.card, s₁.host, s₁.card⟩] } hsame.ctx rfl rfl rfl
  have hsw : ∀ v, (s₁.setCtx b.qid (selHw b.h2c) (HwCtx.setCidx (s₁.ctx b.qid (selHw b.h2c)) v)).sw b.qid b.h2c = s.sw b.qid b.h2c := by
    intro v
    rw [sw_setCidx, State.sw, hsame.ctx, State.sw]
  refine ⟨hloop, ?_, ?_, ?_, ?_⟩
  · simp only [hsw, List.map_append, List.map_singleton, List.length_append, List.length_singleton]
    rw [ringFrom_succ, h.order, h.here]
  · simp only [hsw, cidx_setCidx, List.length_append, List.length_singleton]
    rw [toNat_nextCidx (SwCtx.ringSize_bounds _).2 h.cidx_lt, h.here, Nat.mod_add_mod, Nat.add_assoc]
  · have hturns := h.turns
    simp only [hsw, List.length_append, List.length_singleton]
    omega
  · intro v hv
    simp only [hsw]
    rcases List.mem_append.1 hv with hv | hv
    · exact h.exact v hv
    · rw [List.mem_singleton.1 hv]
      exact hexact

theorem ran_iterate (h : AtLoop s b) (hfair : FairIterate cfg s b) :
    Post (fun s' => Ran s s' ∧ ∀ b', s'.busy = some b' → AtLoop s' b') (Ran s) (s.iterate cfg b) := by
  rw [State.iterate]
  split_ifs with heq
  · have hdone : s.cidx b.qid b.h2c = b.pidx := heq.symm.trans h.pidx
    have hall : b.visits.length = dist (SwCtx.ringSize (s.sw b.qid b.h2c)) b.start.toNat b.pidx.toNat := by
      have hturns := h.turns
      rwa [left, hdone, dist_self, Nat.add_zero] at hturns
    refine ⟨ran_record ⟨rfl, rfl, rfl, rfl, rfl, rfl, rfl, rfl⟩ ⟨hdone, hall ▸ h.order, h.exact, fun hv => absurd heq (h.going hv)⟩, nofun⟩
  obtain ⟨desc, s₁, hfetch, hcopy, hsame, hexact⟩ := exact_turn hfair heq
  have hsw : s₁.sw b.qid b.h2c = s.sw b.qid b.h2c := by rw [State.sw, hsame.ctx, State.sw]
  have hcidx : s₁.cidx b.qid b.h2c = s.cidx b.qid b.h2c := by rw [State.cidx, hsame.ctx, State.cidx]
  let next := State.nextCidx (SwCtx.ringSize (s.sw b.qid b.h2c)) (s.cidx b.qid b.h2c)
  let b₁ : Busy := { b with desc := desc, visits := b.visits ++ [⟨s.cidx b.qid b.h2c, s.host, s.card, s₁.host, s₁.card⟩] }
  let s₂ : State := { s₁.setCtx b.qid (selHw b.h2c) (HwCtx.setCidx (s₁.ctx b.qid (selHw b.h2c)) next) with busy := some b₁ }
  have hok : BusyOk s₂ b₁ := (busyOk_turn h.toBusyOk heq hsame hexact).congr rfl
  have hsw₂ : s₂.sw b.qid b.h2c = s.sw b.qid b.h2c := (sw_setCidx b.qid b.h2c next).trans hsw
  have hcidx₂ : s₂.cidx b.qid b.h2c = next := cidx_setCidx b.qid b.h2c next
  have hadvance : s₁.advance cfg b₁ = if SwCtx.pidx (s.sw b.qid b.h2c) = next then s₂.complete cfg b₁ else .ok s₂ := by
    rw [State.advance]
    simp only [b₁, hsw, hcidx]
    rfl
  rw [hfetch]
  change Post _ _ (s.doMmDma cfg (srcAddress desc) (dstAddress desc) (byteCount desc) b.h2c >>= _)
  rw [hcopy]
  change Post _ _ (s₁.advance cfg b₁)
  rw [hadvance]
  have hran : ∀ s', Ran s₂ s' → Ran s s' := fun s' h' =>
    ⟨h'.disturbed.trans hsame.disturbed, fun r hr => (h'.runs r hr).imp_left fun hr => hsame.runs ▸ hr⟩
  split_ifs with hlast
  · refine (ran_complete hok (hcidx₂.trans (hlast.symm.trans h.pidx)) fun hwb => ?_).mono ?_ hran
    · rw [show s₂.sw b₁.qid b₁.h2c = s.sw b.qid b.h2c from hsw₂] at hwb ⊢
      exact status_of_fair hfair heq hlast hwb
    · rintro s' ⟨hr, hnone⟩
      refine ⟨hran s' hr, fun b' hb' => ?_⟩
      rw [hnone] at hb'
      cases hb'
  · refine ⟨⟨hsame.disturbed, fun r hr => .inl (hsame.runs ▸ hr)⟩, ?_⟩
    rintro b' ⟨⟩
    refine ⟨hok, fun _ => ?_⟩
    rw [show s₂.sw b₁.qid b₁.h2c = s.sw b.qid b.h2c from hsw₂, show s₂.cidx b₁.qid b₁.h2c = next from hcidx₂]
    exact hlast

/-! ### Runs -/

structure Inv (s : State) : Prop where
  runs : ∀ r ∈ s.runs, r.Right
  undisturbed : s.disturbed = false
  busy : ∀ b, s.busy = some b → AtLoop s b ∧ s.fault = none

theorem Inv.good (h : Inv s) : Good cfg s where
  runs := h.runs
  undisturbed := h.undisturbed
  terminates hbusy := by
    obtain ⟨b, hb⟩ := Option.ne_none_iff_exists'.1 hbusy
    obtain ⟨hloop, hfault⟩ := h.busy b hb
    exact terminates hfault hb hloop.toLoopOk

theorem AtLoop.congr (h : AtLoop s b) (hctx : s'.ctx = s.ctx) : AtLoop s' b := by
  refine ⟨h.toBusyOk.congr hctx, fun hv => ?_⟩
  rw [State.sw, State.cidx, hctx]
  exact h.going hv

theorem Inv.caught (h : Inv s) {x : Except State State}
    (hx : Post (fun s' => Ran s s' ∧ ∀ b, s'.busy = some b → AtLoop s' b ∧ s'.fault = none) (Ran s) x) : Inv (State.caught x) := by
  have hruns : ∀ s', Ran s s' → ∀ r ∈ s'.runs, r.Right := fun s' hr r hmem => (hr.runs r hmem).elim (h.runs r) id
  cases x with
  | ok s' => exact ⟨hruns s' hx.1, hx.1.disturbed.trans h.undisturbed, hx.2⟩
  | error s' => exact ⟨hruns s' hx, (show Ran s s' from hx).disturbed.trans h.undisturbed, nofun⟩

theorem sameLoop_handleIrqCtxtCmd (ring : Queue) (cmd : ℕ) : State.SameLoop s (s.handleIrqCtxtCmd ring cmd) := by
  unfold State.handleIrqCtxtCmd
  split
  · exact ⟨⟨rfl, rfl⟩, rfl⟩
  · simp only
    split_ifs <;> exact ⟨⟨rfl, rfl⟩, rfl⟩
  · exact ⟨⟨rfl, rfl⟩, rfl⟩
  · exact ⟨⟨rfl, rfl⟩, rfl⟩
  · exact ⟨⟨rfl, rfl⟩, rfl⟩

theorem post_handleCtxtCmd {v : BitVec 32} (hfair : Fair cfg s (.cmd v)) : Post (State.SameLoop s) (State.SameRuns s) (s.handleCtxtCmd cfg v) := by
  rw [State.handleCtxtCmd]
  simp only
  split_ifs with hq hsel hsel' hsel
  · exact sameLoop_handleIrqCtxtCmd _ _
  · split
    · exact ⟨⟨rfl, rfl⟩, rfl⟩
    · exact ⟨⟨rfl, rfl⟩, rfl⟩
    · exact ⟨⟨rfl, rfl⟩, rfl⟩
    · exact ⟨⟨rfl, rfl⟩, rfl⟩
  · exact State.post_report ⟨⟨rfl, rfl⟩, rfl⟩ ⟨rfl, rfl⟩
  · exact absurd (hfair hsel) hq
  · exact ⟨rfl, rfl⟩

/-- A producer index is taken, or thrown at. -/
theorem post_runMmDma {q : Queue} {h2c : Bool} {v : BitVec 32} (desc : ℕ → Byte) (entry : BitVec 64) (hfault : s.fault = none)
    (hfair : FairPidx cfg s q h2c v) :
    Post (fun s' => Ran s s' ∧ ∀ b, s'.busy = some b → AtLoop s' b ∧ s'.fault = none) (Ran s) (s.runMmDma cfg q h2c v desc entry) := by
  rw [State.runMmDma, dif_pos q.isLt]
  have hsw : ∀ c, (s.setCtx q (selSw h2c) c).sw q h2c = c := by
    intro c
    simp only [State.sw, State.setCtx, Function.update_self]
  have hcidx : ∀ c, (s.setCtx q (selSw h2c) c).cidx q h2c = s.cidx q h2c := by
    intro c
    simp only [State.cidx, State.setCtx, Function.update_self]
    rw [Function.update_of_ne (selSw_ne_selHw h2c h2c).symm]
  simp only [SwCtx.ringSize_setPidx, Fin.eta]
  rcases hfair with ⟨hp, hc⟩ | ⟨hthrows, hp, hsame⟩
  · rw [decide_eq_true hp, if_pos rfl]
    refine ⟨⟨by simp, fun r hr => .inl hr⟩, ?_⟩
    let s₁ : State := s.setCtx q (selSw h2c) (SwCtx.setPidx (s.sw q h2c) (v.setWidth 16))
    let b : Busy := { qid := q, h2c := h2c, pidx := v.setWidth 16, desc := desc, entry := entry, start := s.cidx q h2c }
    have hring : SwCtx.ringSize (s₁.sw q h2c) = SwCtx.ringSize (s.sw q h2c) := by rw [hsw, SwCtx.ringSize_setPidx]
    have hloop : LoopOk s₁ b := by
      refine ⟨?_, ?_, ?_⟩
      · rw [hsw, SwCtx.pidx_setPidx]
      · exact hring ▸ hp
      · rw [hcidx, hring]
        exact hc
    have hok : BusyOk s₁ b := by
      refine ⟨hloop, rfl, ?_, ?_, nofun⟩
      · rw [hcidx, hring]
        exact (Nat.mod_eq_of_lt hc).symm
      · rw [left, hcidx]
        exact Nat.zero_add _
    rintro b' ⟨⟩
    exact ⟨⟨hok.congr rfl, fun h => absurd rfl h⟩, hfault⟩
  · rw [decide_eq_false (by omega), if_neg (by decide), State.report, if_pos hthrows]
    exact ⟨by simp [hthrows, hsame], fun r hr => .inl hr⟩

theorem inv_step {a : Act} (h : Inv s) (hfair : Fair cfg s a) (hs : step cfg s a = some s') : Inv s' := by
  rw [step] at hs
  split_ifs at hs with hfault
  cases a with
  | pidx qid h2c v desc entry =>
    rw [State.act] at hs
    split at hs
    · split_ifs at hs with hq
      · cases hs
        obtain ⟨hlt, hpidx⟩ := hfair hq
        exact h.caught (post_runMmDma (q := ⟨qid, hlt⟩) desc entry hfault hpidx)
      · cases hs
        exact h
    · cases hs
  | data i v =>
    rw [State.act] at hs
    split at hs
    · cases hs
      exact ⟨h.runs, h.undisturbed, fun b hb => ⟨(h.busy b hb).1.congr rfl, hfault⟩⟩
    · cases hs
  | cmd v =>
    rw [State.act] at hs
    split at hs
    case h_1 hnone =>
      cases hs
      refine h.caught ((post_handleCtxtCmd hfair).mono (fun s₁ hsame => ⟨.of_same hsame.toSameRuns, fun b hb => ?_⟩) fun _ => .of_same)
      rw [hsame.busy, hnone] at hb
      cases hb
    case h_2 => cases hs
  | iterate =>
    obtain ⟨b, hb, rfl⟩ := Option.map_eq_some_iff.1 hs
    obtain ⟨hloop, -⟩ := h.busy b hb
    have hran : Post _ _ (s.iterate cfg b) := ran_iterate hloop (hfair b hb)
    have hleft : Post _ _ (s.iterate cfg b) := post_iterate_left hloop.toLoopOk
    refine h.caught ?_
    cases hres : s.iterate cfg b with
    | error s₁ =>
      rw [hres] at hran
      exact hran
    | ok s₁ =>
      rw [hres] at hran hleft
      refine ⟨hran.1, fun b' hb' => ⟨hran.2 b' hb', ?_⟩⟩
      rcases hleft with hnone | ⟨_, -, -, -, hf⟩
      · rw [hnone] at hb'
        cases hb'
      · exact hf.trans hfault
  | setHost a bs =>
    cases hs
    exact ⟨h.runs, h.undisturbed, fun b hb => ⟨(h.busy b hb).1.congr rfl, hfault⟩⟩
  | setCard a bs =>
    cases hs
    exact ⟨h.runs, h.undisturbed, fun b hb => ⟨(h.busy b hb).1.congr rfl, hfault⟩⟩

/-- Nothing has happened yet, whatever the contexts and the memories hold. -/
structure Fresh (s : State) : Prop where
  runs : s.runs = []
  busy : s.busy = none
  disturbed : s.disturbed = false

/-- **The rings are right along every run** whose steps are not left out. -/
theorem descRing_of_run {s₀ : State} (h₀ : Fresh s₀) (h : Reach (step cfg) (Fair cfg) s₀ s) : Good cfg s := by
  have hinv : Inv s₀ := ⟨by simp [h₀.runs], h₀.disturbed, by simp [h₀.busy]⟩
  exact (h.invariant hinv inv_step).good

instance {init tgt : Bus} {src mem : Addr → Byte} {c : Ctx} {i : BitVec 16} {desc : ℕ → Byte} : Decidable (FairTurn cfg init tgt src mem c i desc) :=
  decidable_of_iff (32 ≤ SwCtx.descSize c ∧
      (∀ k < SwCtx.descSize c / 4, cfg.hostBus.readOk (SwCtx.descAddr c i.toNat + BitVec.ofNat 64 (4 * k)) = true) ∧
      (∀ k < (byteCount desc + 3) / 4, init.readOk (srcAddress desc + BitVec.ofNat 64 (4 * k)) = true ∧
        tgt.writeOk (dstAddress desc + BitVec.ofNat 64 (4 * k)) = true) ∧
      (∀ k < 4 * ((byteCount desc + 3) / 4), byteCount desc ≤ k →
        mem (dstAddress desc + BitVec.ofNat 64 k) = src (srcAddress desc + BitVec.ofNat 64 k)) ∧
      (SwCtx.pidx c = State.nextCidx (SwCtx.ringSize c) i → SwCtx.writebackEn c = true →
        (∀ k < SwCtx.descSize c / 4, cfg.hostBus.readOk (SwCtx.descAddr c (SwCtx.ringSize c) + BitVec.ofNat 64 (4 * k)) = true) ∧
          cfg.hostBus.writeOk (SwCtx.descAddr c (SwCtx.ringSize c)) = true))
    ⟨fun ⟨h₁, h₂, h₃, h₄, h₅⟩ => ⟨h₁, h₂, h₃, h₄, h₅⟩, fun ⟨h₁, h₂, h₃, h₄, h₅⟩ => ⟨h₁, h₂, h₃, h₄, h₅⟩⟩

instance (s : State) (b : Busy) : Decidable (FairIterate cfg s b) :=
  inferInstanceAs (Decidable (SwCtx.pidx (s.sw b.qid b.h2c) ≠ s.cidx b.qid b.h2c →
    if b.h2c = true then
      FairTurn cfg cfg.hostBus cfg.cardBus s.host s.card (s.sw b.qid b.h2c) (s.cidx b.qid b.h2c)
        (slot s.host (SwCtx.descAddr (s.sw b.qid b.h2c) (s.cidx b.qid b.h2c).toNat))
    else
      FairTurn cfg cfg.cardBus cfg.hostBus s.card s.host (s.sw b.qid b.h2c) (s.cidx b.qid b.h2c)
        (slot s.host (SwCtx.descAddr (s.sw b.qid b.h2c) (s.cidx b.qid b.h2c).toNat))))

instance (s : State) (q : Queue) (h2c : Bool) (v : BitVec 32) : Decidable (FairPidx cfg s q h2c v) :=
  inferInstanceAs (Decidable (_ ∧ _ ∨ _ ∧ _ ∧ _))

instance (s : State) : ∀ a, Decidable (Fair cfg s a)
  | .pidx qid h2c v _ _ => inferInstanceAs (Decidable (qid ≤ queueCount → ∃ h : qid < queueCount, FairPidx cfg s ⟨qid, h⟩ h2c v))
  | .cmd v => inferInstanceAs (Decidable ((v.extractLsb' 1 4).toNat = selIntCoal → (v.extractLsb' 7 13).toNat < queueCount))
  | .iterate => decidable_of_iff ((s.busy.all fun b => decide (FairIterate cfg s b)) = true) (by
      simp only [Option.all_eq_true, decide_eq_true_eq, Fair])
  | .data _ _ | .setHost _ _ | .setCard _ _ => isTrue trivial

/-- Every access succeeds, and an error throws. -/
def plainCfg : Cfg := ⟨.cpm5, true, {}, {}⟩

/-- A ring of 64 descriptors of 32 bytes at 0x1000, with two of four bytes each, and the status enabled. -/
def twoDescriptors : State where
  ctx := fun _ sel => if sel = selSw true then 0x1000 <<< 64 ||| 1 <<< 52 ||| 2 <<< 48 ||| 1 <<< 44 else 0
  host := fun a => if a = 0x1001 ∨ a = 0x1021 then 0x20 else if a = 0x1008 ∨ a = 0x1028 then 4 else if a = 0x1030 then 0x80
    else if a < 0x2000 then 0 else 0x11

/-- The driver hands over both, and the loop takes a turn for each. -/
def twoTurns : List Act := [.pidx 0 true 2 (fun _ => 0) 0, .iterate, .iterate]

theorem good_twoDescriptors : ∃ s, run (step plainCfg) twoDescriptors twoTurns = some s ∧ s.runs.length = 1 ∧ Good plainCfg s := by
  have hok : RunOk (step plainCfg) (Fair plainCfg) twoDescriptors twoTurns := by decide +kernel
  have hruns : (run (step plainCfg) twoDescriptors twoTurns).map (fun s => s.runs.length) = some 1 := by decide +kernel
  obtain ⟨s, hs, hlen⟩ := Option.map_eq_some_iff.1 hruns
  exact ⟨s, hs, hlen, descRing_of_run ⟨rfl, rfl, rfl⟩ (Reach.refl.of_run hok hs)⟩

/-- A producer index of the queue behind the last is taken. -/
theorem not_good_queueCount : ∃ s, run (step plainCfg) {} [.pidx 2 true 0 (fun _ => 0) 0] = some s ∧ ¬Good plainCfg s :=
  ⟨_, rfl, fun h => absurd h.undisturbed (by decide)⟩

end LibSystemCTLM.Qdma
