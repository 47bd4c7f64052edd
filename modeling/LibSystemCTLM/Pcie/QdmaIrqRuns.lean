import LibSystemCTLM.Pcie.QdmaIrqRing

/-!
# Runs of the interrupt rings

Each part of `run_mm_dma` and each command keeps the index and the colour of a valid ring where the entries so far
left them (`RingsOk`), so the entries are right along every run.
-/

namespace LibSystemCTLM.Qdma

open Foundation Tlm

variable {cfg : Cfg} {s s' : State} {b : Busy}

/-! ### The interrupt of a queue -/

/-- The simulation is over, and the entries were right. -/
structure Ended (s : State) : Prop where
  good : RingsGood s
  faulted : s.fault ≠ none

/-- Contexts that the rings do not go by were written. -/
structure SameRings (s s' : State) : Prop where
  ctx : ∀ q sel, sel ≠ selHw true → sel ≠ selHw false → s'.ctx q sel = s.ctx q sel
  idx : s'.irqRingEntryIdx = s.irqRingEntryIdx
  blank : s'.blank = s.blank
  events : s'.events = s.events

theorem SameRings.ring (h : SameRings s s') (ring : Queue) : SameRing cfg s s' ring := by
  have hctx : s'.ctx ring selIntCoal = s.ctx ring selIntCoal := h.ctx ring selIntCoal (by decide) (by decide)
  exact ⟨by rw [hctx], by rw [hctx], by rw [hctx], by rw [h.idx], by rw [h.blank], by rw [h.events]⟩

theorem RingsOk.of_sameRings (h : RingsOk cfg s) (hsame : SameRings s s') : RingsOk cfg s' := h.congr hsame.events hsame.ring

theorem SameRings.trans {s₁ s₂ s₃ : State} (h : SameRings s₁ s₂) (h' : SameRings s₂ s₃) : SameRings s₁ s₃ :=
  ⟨fun q sel h₁ h₂ => (h'.ctx q sel h₁ h₂).trans (h.ctx q sel h₁ h₂), h'.idx.trans h.idx, h'.blank.trans h.blank,
    h'.events.trans h.events⟩

theorem sameRings_of_memory (h : State.SameButMemory s s') : SameRings s s' :=
  ⟨fun q sel _ _ => by rw [h.ctx], h.irqRingEntryIdx, h.blank, h.events⟩

theorem sameRings_setHw (q : Queue) (h2c : Bool) (c : Ctx) : SameRings s (s.setCtx q (selHw h2c) c) := by
  refine ⟨fun q' sel h₁ h₂ => ctx_setCtx_of_ne (.inr ?_) c, rfl, rfl, rfl⟩
  cases h2c
  · exact h₂
  · exact h₁

theorem SameRings.sw (h : SameRings s s') (q : Queue) (h2c : Bool) : s'.sw q h2c = s.sw q h2c :=
  h.ctx q _ (by cases h2c <;> decide) (by cases h2c <;> decide)

theorem SameRings.irqAggregationEnabled (h : SameRings s s') (q : Queue) (h2c : Bool) :
    s'.irqAggregationEnabled cfg q h2c = s.irqAggregationEnabled cfg q h2c := by
  simp only [State.irqAggregationEnabled, h.sw, h.ctx q selQid2Vec (by decide) (by decide)]

theorem SameRings.getVec (h : SameRings s s') (q : Queue) (h2c : Bool) : s'.getVec cfg q h2c = s.getVec cfg q h2c := by
  simp only [State.getVec, h.sw, h.ctx q selQid2Vec (by decide) (by decide)]

theorem SameRings.fairDue (h : SameRings s s') {q : Queue} {h2c : Bool} (hfair : FairDue cfg s q h2c) : FairDue cfg s' q h2c := by
  have hctx : ∀ r, s'.ctx r selIntCoal = s.ctx r selIntCoal := fun r => h.ctx r selIntCoal (by decide) (by decide)
  simp only [FairDue, entryAddr, h.sw, h.irqAggregationEnabled, h.getVec, hctx, h.idx]
  exact hfair

theorem nextEntry_msix (ring : Queue) (l : List Event) (v : ℕ) :
    ({ State.nextEntry cfg { s with events := l } ring with
      events := (State.nextEntry cfg { s with events := l } ring).events ++ [.msix v] } : State) =
      { s.nextEntry cfg ring with events := l ++ [.msix v] } := by
  rw [State.nextEntry, State.nextEntry]
  split_ifs
  · rfl
  · rfl

/-- An entry is put, and the index goes on. -/
theorem writeIrqRingEntry_of_ok {ring : Queue} (hok : cfg.hostBus.writeOk (entryAddr cfg s ring) = true) (e : Entry) (stack : BitVec 64) :
    s.writeIrqRingEntry cfg ring e stack = .ok (State.nextEntry cfg { s with
      host := storeBytes s.host (entryAddr cfg s ring) (wordBytes (e.encode cfg.flavour stack))
      blank := Function.update s.blank ring false
      events := s.events ++ [.entry ⟨ring, s.irqRingEntryIdx ring, entryAddr cfg s ring, e.color,
        (IntrCtx.baddr cfg.flavour (s.ctx ring selIntCoal)).setWidth 64 <<< 12, IntrCtx.size cfg.flavour (s.ctx ring selIntCoal)⟩] } ring) := by
  have hput : s.putEntry cfg ring e stack = .ok _ := if_pos hok
  rw [State.writeIrqRingEntry, hput]
  rfl

/-- A queue whose interrupt goes by a valid ring gets its entry, and the MSI-X follows. -/
theorem rings_put {ring : Queue} (h : RingsOk cfg s) (hvalid : IntrCtx.valid (s.ctx ring selIntCoal) = true)
    (hvec : IntrCtx.vector cfg.flavour (s.ctx ring selIntCoal) < 8) (hok : cfg.hostBus.writeOk (entryAddr cfg s ring) = true)
    {e : Entry} (he : e.color = IntrCtx.color cfg.flavour (s.ctx ring selIntCoal)) (stack : BitVec 64) :
    Post (RingsOk cfg) Ended
      (State.writeIrqRingEntry cfg { s with events := s.events ++ [.due ring (IntrCtx.vector cfg.flavour (s.ctx ring selIntCoal))] } ring e stack >>=
        fun s' => s'.notify (IntrCtx.vector cfg.flavour (s.ctx ring selIntCoal))) := by
  have hwrite := writeIrqRingEntry_of_ok (s := { s with events := s.events ++ [.due ring (IntrCtx.vector cfg.flavour (s.ctx ring selIntCoal))] })
    hok e stack
  rw [hwrite, he]
  change Post _ _ (State.notify _ _)
  rw [State.notify, if_pos hvec]
  let host := storeBytes s.host (entryAddr cfg s ring) (wordBytes (e.encode cfg.flavour stack))
  have hput := ringsOk_entry h hvalid host (IntrCtx.vector cfg.flavour (s.ctx ring selIntCoal))
  simp only at hput
  rw [List.append_cons, List.append_cons, ← nextEntry_msix] at hput
  exact hput

theorem rings_coalesce {ring : Queue} (h : RingsOk cfg s)
    (hfair : IntrCtx.valid (s.ctx ring selIntCoal) = true →
      IntrCtx.vector cfg.flavour (s.ctx ring selIntCoal) < 8 ∧ cfg.hostBus.writeOk (entryAddr cfg s ring) = true) :
    Post (RingsOk cfg) Ended (s.coalesce cfg b ring) := by
  let s₁ : State := s.setCtx ring selIntCoal (IntrCtx.setPidx cfg.flavour (s.ctx ring selIntCoal) (b.pidx.setWidth 12))
  have hctx : s₁.ctx ring selIntCoal = IntrCtx.setPidx cfg.flavour (s.ctx ring selIntCoal) (b.pidx.setWidth 12) := ctx_setCtx_self _ _ _
  have hok : RingsOk cfg s₁ := by
    refine h.congr rfl fun r => ?_
    by_cases hr : r = ring
    · subst hr
      refine ⟨?_, ?_, ?_, rfl, rfl, rfl⟩
      · rw [hctx, IntrCtx.valid_setPidx]
      · rw [hctx, IntrCtx.color_setPidx]
      · rw [hctx, IntrCtx.size_setPidx]
    · exact sameRing_setCtx (.inl hr) _
  rw [State.coalesce]
  simp only
  split_ifs with hvalid
  · exact State.post_report hok ⟨h.good.congr rfl, fun h => by cases h⟩
  · rw [Bool.not_eq_false] at hvalid
    rw [IntrCtx.valid_setPidx] at hvalid
    obtain ⟨hvec, haddr⟩ := hfair hvalid
    have hput : Post (RingsOk cfg) Ended _ := rings_put (e := ⟨b.qid, b.h2c, IntrCtx.color cfg.flavour (s₁.ctx ring selIntCoal), s₁.cidx b.qid b.h2c,
        (IntrCtx.pidx cfg.flavour (s₁.ctx ring selIntCoal)).setWidth 16⟩) hok ?_ ?_ ?_ rfl b.entry
    · rw [hctx] at hput
      exact hput
    · rw [hctx, IntrCtx.valid_setPidx, hvalid]
    · rw [hctx, IntrCtx.vector_setPidx]
      exact hvec
    · rw [entryAddr, hctx, IntrCtx.baddr_setPidx]
      exact haddr

theorem rings_interrupt (h : RingsOk cfg s) (hfair : FairDue cfg s b.qid b.h2c) : Post (RingsOk cfg) Ended (s.interrupt cfg b) := by
  rw [State.interrupt]
  split_ifs with harm hagg hring
  · exact h
  · rw [not_or, Bool.not_eq_false, Bool.not_eq_false] at harm
    obtain ⟨_, hdue⟩ := hfair harm.1 harm.2 hagg
    exact rings_coalesce h hdue
  · rw [not_or, Bool.not_eq_false, Bool.not_eq_false] at harm
    obtain ⟨hlt, -⟩ := hfair harm.1 harm.2 hagg
    exact absurd hlt hring
  · rw [State.notify]
    split_ifs
    · exact h.msix _
    · exact ⟨h.good.congr rfl, fun h => by cases h⟩

/-! ### The loop -/

theorem ended_of_thrown (h : RingsOk cfg s) (hthrown : State.Thrown s s') : Ended s' := ⟨h.good.congr hthrown.events, hthrown.faulted⟩

theorem rings_complete (h : RingsOk cfg s) (hfair : FairDue cfg s b.qid b.h2c) : Post (RingsOk cfg) Ended (s.complete cfg b) := by
  have hrecord : ∀ s' status, SameRings s s' → Post (RingsOk cfg) Ended ((s'.record b status).interrupt cfg b) := by
    intro s' status hsame
    have hrec : SameRings s (s'.record b status) := hsame.trans ⟨fun _ _ _ _ => rfl, rfl, rfl, rfl⟩
    exact rings_interrupt (h.of_sameRings hrec) (hrec.fairDue hfair)
  rw [State.complete]
  split_ifs
  · exact ((State.post_writeStatus b).mono (fun _ => sameRings_of_memory) fun _ => ended_of_thrown h).bind fun s' hsame => hrecord s' _ hsame
  · exact hrecord s none ⟨fun _ _ _ _ => rfl, rfl, rfl, rfl⟩

theorem rings_advance (h : RingsOk cfg s)
    (hfair : SwCtx.pidx (s.sw b.qid b.h2c) = State.nextCidx (SwCtx.ringSize (s.sw b.qid b.h2c)) (s.cidx b.qid b.h2c) → FairDue cfg s b.qid b.h2c) :
    Post (RingsOk cfg) Ended (s.advance cfg b) := by
  rw [State.advance]
  simp only
  let next := State.nextCidx (SwCtx.ringSize (s.sw b.qid b.h2c)) (s.cidx b.qid b.h2c)
  have hset : SameRings s (s.setCtx b.qid (selHw b.h2c) (HwCtx.setCidx (s.ctx b.qid (selHw b.h2c)) next)) := sameRings_setHw _ _ _
  have hsame : SameRings s { s.setCtx b.qid (selHw b.h2c) (HwCtx.setCidx (s.ctx b.qid (selHw b.h2c)) next) with busy := some b } :=
    hset.trans ⟨fun _ _ _ _ => rfl, rfl, rfl, rfl⟩
  split_ifs with hlast
  · exact rings_complete (h.of_sameRings hsame) (hsame.fairDue (hfair hlast))
  · exact h.of_sameRings hsame

theorem rings_iterate (h : RingsOk cfg s) (hb : s.busy = some b) (hfair : FairRing cfg s .iterate) :
    Post (RingsOk cfg) Ended (s.iterate cfg b) := by
  rw [State.iterate]
  split_ifs with heq
  · exact h.of_sameRings ⟨fun _ _ _ _ => rfl, rfl, rfl, rfl⟩
  · refine ((State.post_fetchDescriptor _ _ _).mono (fun _ h => h) fun _ => ended_of_thrown h).bind fun desc _ => ?_
    refine ((State.post_doMmDma _ _ _ _).mono (fun _ h => h) fun _ => ended_of_thrown h).bind fun s₁ hsame => ?_
    have hrings : SameRings s s₁ := sameRings_of_memory hsame
    refine rings_advance (h.of_sameRings hrings) fun hlast => hrings.fairDue (hfair b hb heq ?_)
    simp only [State.sw, State.cidx, hsame.ctx] at hlast
    exact hlast

/-! ### Commands -/

theorem ringOk_of_invalid {ring : Queue} (h : IntrCtx.valid (s.ctx ring selIntCoal) = false) : RingOk cfg s ring := fun hvalid =>
  absurd (h.symm.trans hvalid) (by decide)

theorem rings_setCtx {ring : Queue} {c : Ctx} (h : RingsOk cfg s) (hring : RingOk cfg (s.setCtx ring selIntCoal c) ring) :
    RingsOk cfg (s.setCtx ring selIntCoal c) := by
  refine ⟨h.good.congr rfl, fun r => ?_⟩
  by_cases hr : r = ring
  · exact hr ▸ hring
  · exact (h.ring r).congr (sameRing_setCtx (.inl hr) c)

theorem ringOk_rewrite {ring : Queue} (h : RingOk cfg s ring) (hfair : FairWrite cfg s ring)
    (hwas : IntrCtx.valid s.data = true → IntrCtx.valid (s.ctx ring selIntCoal) = true) :
    RingOk cfg (s.setCtx ring selIntCoal s.data) ring := by
  rw [RingOk, ctx_setCtx_self]
  intro hvalid
  obtain ⟨hroom, hcolor⟩ := hfair (hwas hvalid) hvalid
  obtain ⟨p, hp, hslot, hblank, hlap, -⟩ := h (hwas hvalid)
  refine ⟨p, hp, hslot, hblank, fun c hc => ?_, hroom⟩
  rcases hcolor with hb | hsame
  · rw [hblank hb] at hc
    cases hc
  · exact hsame.trans (hlap c hc)

theorem rings_validated {ring : Queue} (h : RingsOk cfg s) :
    RingsOk cfg { s.setCtx ring selIntCoal s.data with
      irqRingEntryIdx := Function.update s.irqRingEntryIdx ring 0
      blank := Function.update s.blank ring true
      events := s.events ++ [.validated ring] } := by
  refine ⟨⟨fun r => laps_append.2 ⟨h.good.laps r, trivial, trivial⟩, served_append h.good.served trivial⟩, fun r => ?_⟩
  by_cases hr : r = ring
  · subst hr
    intro _
    have hidx : Function.update s.irqRingEntryIdx r 0 r = 0 := Function.update_self _ _ _
    refine ⟨⟨0, none⟩, ?_, hidx.symm, fun _ => rfl, nofun, ?_⟩
    · simp [track]
    · simp only [hidx, IntrCtx.size]
      omega
  · have hset : SameRing cfg s (s.setCtx ring selIntCoal s.data) r := sameRing_setCtx (.inl hr) _
    refine (h.ring r).congr ⟨hset.valid, hset.color, hset.size, Function.update_of_ne hr _ _, Function.update_of_ne hr _ _, ?_⟩
    have hne : ¬ring = r := fun h => hr h.symm
    simp only [List.foldl_append, List.foldl_cons, List.foldl_nil, track, if_neg hne]

theorem rings_handleIrqCtxtCmd {ring : Queue} {cmd : ℕ} (h : RingsOk cfg s) (hfair : cmd = 1 → FairWrite cfg s ring) :
    RingsOk cfg (s.handleIrqCtxtCmd ring cmd) := by
  unfold State.handleIrqCtxtCmd
  split
  · refine rings_setCtx h (ringOk_of_invalid ?_)
    rw [ctx_setCtx_self]
    rfl
  · simp only
    split_ifs with hval
    · exact rings_validated h
    · refine rings_setCtx h (ringOk_rewrite (h.ring ring) (hfair rfl) fun hdata => ?_)
      by_contra hnot
      exact hval ⟨hdata, Bool.not_eq_true _ ▸ hnot⟩
  · exact h.congr rfl fun _ => ⟨rfl, rfl, rfl, rfl, rfl, rfl⟩
  · refine rings_setCtx h (ringOk_of_invalid ?_)
    rw [ctx_setCtx_self, IntrCtx.valid_invalidate]
  · exact h

theorem rings_handleCtxtCmd {v : BitVec 32} (h : RingsOk cfg s) (hfair : FairRing cfg s (.cmd v)) :
    Post (RingsOk cfg) Ended (s.handleCtxtCmd cfg v) := by
  have hended : ∀ f, Ended { s with fault := some f } := fun f => ⟨h.good.congr rfl, nofun⟩
  rw [State.handleCtxtCmd]
  simp only
  split_ifs with hq hsel hother hsel
  · exact rings_handleIrqCtxtCmd h fun hcmd => hfair hsel hcmd hq
  · split
    · exact h.congr rfl fun _ => sameRing_setCtx (.inr (Ne.symm hsel)) _
    · exact h.congr rfl fun _ => sameRing_setCtx (.inr (Ne.symm hsel)) _
    · exact h.congr rfl fun _ => ⟨rfl, rfl, rfl, rfl, rfl, rfl⟩
    · exact h
  · exact State.post_report h (hended _)
  · exact ⟨h.good.congr rfl, nofun⟩
  · exact hended _

theorem rings_runMmDma {qid : ℕ} {h2c : Bool} {v : BitVec 32} {desc : ℕ → Byte} {entry : BitVec 64} (h : RingsOk cfg s) :
    Post (RingsOk cfg) Ended (s.runMmDma cfg qid h2c v desc entry) := by
  rw [State.runMmDma]
  split_ifs with hq
  · simp only
    have hset : ∀ q c b d, RingsOk cfg { s.setCtx q (selSw h2c) c with busy := b, disturbed := d } := fun q c b d =>
      h.congr rfl fun r => by
        have hsame : SameRing cfg s (s.setCtx q (selSw h2c) c) r := sameRing_setCtx (.inr (by cases h2c <;> decide)) c
        exact ⟨hsame.valid, hsame.color, hsame.size, hsame.idx, hsame.blank, hsame.events⟩
    split_ifs
    · exact hset _ _ _ _
    · exact State.post_report (hset _ _ _ _) ⟨h.good.congr rfl, nofun⟩
  · exact ⟨h.good.congr rfl, nofun⟩

/-! ### Runs -/

/-- Along a run, as long as nothing has failed. -/
structure RingsInv (cfg : Cfg) (s : State) : Prop where
  good : RingsGood s
  rings : s.fault = none → RingsOk cfg s

theorem ringsInv_caught {x : Except State State} (h : Post (RingsOk cfg) Ended x) : RingsInv cfg (State.caught x) := by
  cases x with
  | ok s' => exact ⟨h.good, fun _ => h⟩
  | error s' => exact ⟨(show Ended s' from h).good.congr rfl, fun hnone => absurd hnone (show Ended s' from h).faulted⟩

theorem ringsInv_step {a : Act} (h : RingsInv cfg s) (hfair : FairRing cfg s a) (hs : step cfg s a = some s') : RingsInv cfg s' := by
  rw [step] at hs
  split_ifs at hs with hfault
  have hok : RingsOk cfg s := h.rings hfault
  have hsame : ∀ s', SameRings s s' → RingsInv cfg s' := fun s' hsame => ⟨h.good.congr hsame.events, fun _ => hok.of_sameRings hsame⟩
  cases a with
  | pidx qid h2c v desc entry =>
    rw [State.act] at hs
    split at hs
    · split_ifs at hs with hq
      · cases hs
        exact ringsInv_caught (rings_runMmDma hok)
      · cases hs
        exact h
    · cases hs
  | data i v =>
    rw [State.act] at hs
    split at hs
    · cases hs
      exact hsame _ ⟨fun _ _ _ _ => rfl, rfl, rfl, rfl⟩
    · cases hs
  | cmd v =>
    rw [State.act] at hs
    split at hs
    · cases hs
      exact ringsInv_caught (rings_handleCtxtCmd hok hfair)
    · cases hs
  | iterate =>
    obtain ⟨b, hb, rfl⟩ := Option.map_eq_some_iff.1 hs
    exact ringsInv_caught (rings_iterate hok hb hfair)
  | setHost a bs =>
    cases hs
    exact hsame _ ⟨fun _ _ _ _ => rfl, rfl, rfl, rfl⟩
  | setCard a bs =>
    cases hs
    exact hsame _ ⟨fun _ _ _ _ => rfl, rfl, rfl, rfl⟩

/-- No interrupt yet, and no ring. -/
structure NoRings (s : State) : Prop where
  events : s.events = []
  invalid : ∀ ring, IntrCtx.valid (s.ctx ring selIntCoal) = false

/-- **The interrupt rings are right along every run** whose steps are not left out. -/
theorem ringsGood_of_run {s₀ : State} (h₀ : NoRings s₀) (h : Reach (step cfg) (FairRing cfg) s₀ s) : RingsGood s := by
  have hgood : RingsGood s₀ := by
    constructor
    · rw [h₀.events]
      exact fun _ => trivial
    · rw [h₀.events]
      trivial
  have hinv : RingsInv cfg s₀ := ⟨hgood, fun _ => ⟨hgood, fun ring => ringOk_of_invalid (h₀.invalid ring)⟩⟩
  exact (h.invariant hinv ringsInv_step).good

instance (s : State) (ring : Queue) : Decidable (FairWrite cfg s ring) := inferInstanceAs (Decidable (_ → _ → _ ∧ _))

instance (s : State) (q : Queue) (h2c : Bool) : Decidable (FairDue cfg s q h2c) := inferInstanceAs (Decidable (_ → _ → _ → ∃ _ : _, _ → _))

instance (s : State) : ∀ a, Decidable (FairRing cfg s a)
  | .cmd v => inferInstanceAs (Decidable (_ → _ → ∀ h : (v.extractLsb' 7 13).toNat < queueCount, FairWrite cfg s ⟨_, h⟩))
  | .iterate => decidable_of_iff ((s.busy.all fun b => decide (SwCtx.pidx (s.sw b.qid b.h2c) ≠ s.cidx b.qid b.h2c →
      SwCtx.pidx (s.sw b.qid b.h2c) = State.nextCidx (SwCtx.ringSize (s.sw b.qid b.h2c)) (s.cidx b.qid b.h2c) →
        FairDue cfg s b.qid b.h2c)) = true) (by simp only [Option.all_eq_true, decide_eq_true_eq, FairRing])
  | .pidx .. | .data .. | .setHost .. | .setCard .. => isTrue trivial

instance (ring : Queue) : ∀ l ev, Decidable (Fits ring l ev)
  | some p, .entry e => decidable_of_iff (e.ring = ring → e.slot = p.slot ∧ (∀ c, p.color = some c → e.color = c) ∧
      (e.slot + 1) * 8 ≤ e.size ∧ e.addr = e.base + BitVec.ofNat 64 (8 * e.slot)) (by simp [Fits])
  | none, .entry e => decidable_of_iff (e.ring ≠ ring) (by simp [Fits])
  | _, .validated _ | _, .due _ _ | _, .msix _ => isTrue trivial

instance (ring : Queue) : ∀ l evs, Decidable (Laps ring l evs)
  | _, [] => isTrue trivial
  | l, ev :: evs =>
    have : Decidable (Laps ring (track ring l ev) evs) := instDecidableLaps ring (track ring l ev) evs
    inferInstanceAs (Decidable (_ ∧ _))

/-- Every access succeeds, and an error throws. -/
def ringCfg : Cfg := ⟨.cpm5, true, {}, {}⟩

/-- Descriptors of no bytes, 32 bytes apart, in a ring of 64, which interrupts by way of the first interrupt ring. -/
def mapped : State where
  ctx := fun _ sel => if sel = selSw true then 1 <<< 139 ||| 1 <<< 53 ||| 2 <<< 48 ||| 1 <<< 44 ||| 1 <<< 16 else 0
  data := 1

/-- The context of the ring is written, and two queues are done, with the context written again before the second. -/
def twoEntries (data : BitVec 32) : List Act :=
  [.cmd 48, .pidx 0 true 1 (fun _ => 0) 0, .iterate, .data 0 data, .cmd 48, .pidx 1 true 1 (fun _ => 0) 0, .iterate]

theorem ringsGood_twoEntries : ∃ s, run (step ringCfg) mapped (twoEntries 1) = some s ∧ s.events.length = 7 ∧ RingsGood s := by
  have hok : RunOk (step ringCfg) (FairRing ringCfg) mapped (twoEntries 1) := by decide +kernel
  have hlen : (run (step ringCfg) mapped (twoEntries 1)).map (fun s => s.events.length) = some 7 := by decide +kernel
  obtain ⟨s, hs, hlen⟩ := Option.map_eq_some_iff.1 hlen
  exact ⟨s, hs, hlen, ringsGood_of_run ⟨rfl, by decide⟩ (Reach.refl.of_run hok hs)⟩

/-- The colour of the context that is written again is that of the second entry. -/
theorem not_ringsGood_recolored : ∃ s, run (step ringCfg) mapped (twoEntries 0x4001) = some s ∧ ¬RingsGood s := by
  have hlaps : (run (step ringCfg) mapped (twoEntries 0x4001)).map (fun s => decide (Laps ⟨0, by decide⟩ none s.events)) = some false := by decide +kernel
  obtain ⟨s, hs, hlaps⟩ := Option.map_eq_some_iff.1 hlaps
  exact ⟨s, hs, fun h => of_decide_eq_false hlaps (h.laps _)⟩

end LibSystemCTLM.Qdma
