import LibSystemCTLM.Pcie.QdmaSteps

/-!
# The interrupt rings of the QDMA

A queue that is done puts an entry in the ring it is mapped to, and the MSI-X of the ring follows. Since the context
of a ring became valid its entries are put in one slot after the other, from the first on and round again, and the
colour changes with each lap (`Laps`); every queue that is to interrupt gets its entry and its MSI-X (`Served`).

The index of the ring is the model's own, and it goes back to the first slot when it meets the end that is programmed.
A context that is written while it is valid can set that end before it, so that it is never met, and change the
colour in the middle of a lap. Nor is it checked that there is a ring of the number a queue is mapped to, or an MSI-X
of the vector of a ring. `FairRing` leaves these out.
-/

namespace LibSystemCTLM.Qdma

open Foundation Tlm

/-! ### The property -/

/-- The slot that comes next, and the colour of the lap, which the first entry of the first lap sets. -/
structure Lap where
  slot : ℕ
  color : Option Bool

/-- What an event does to the lap of a ring. -/
def track (ring : Queue) (l : Option Lap) : Event → Option Lap
  | .validated r => if r = ring then some ⟨0, none⟩ else l
  | .entry e =>
    if e.ring = ring then if (e.slot + 1) * 8 = e.size then some ⟨0, some !e.color⟩ else some ⟨e.slot + 1, some e.color⟩
    else l
  | .due _ _ | .msix _ => l

/-- An entry of the ring is the next of its lap, and lies in the ring that is programmed. -/
def Fits (ring : Queue) (l : Option Lap) : Event → Prop
  | .entry e =>
    e.ring = ring → ∃ p, l = some p ∧ e.slot = p.slot ∧ (∀ c, p.color = some c → e.color = c) ∧
      (e.slot + 1) * 8 ≤ e.size ∧ e.addr = e.base + BitVec.ofNat 64 (8 * e.slot)
  | _ => True

/-- The entries of a ring, lap after lap. -/
def Laps (ring : Queue) : Option Lap → List Event → Prop
  | _, [] => True
  | l, ev :: evs => Fits ring l ev ∧ Laps ring (track ring l ev) evs

/-- Every queue that is to interrupt by way of a ring has one entry put there, and the MSI-X of the ring follows. -/
def Served : List Event → Prop
  | [] => True
  | .due ring v :: .entry e :: .msix v' :: l => e.ring.val = ring ∧ v' = v ∧ Served l
  | .validated _ :: l => Served l
  | .msix _ :: l => Served l
  | _ :: _ => False

/-- **The interrupt rings are right.** -/
structure RingsGood (s : State) : Prop where
  laps : ∀ ring, Laps ring none s.events
  served : Served s.events

/-! ### The steps that are not left out -/

/-- A context command: a valid context that is written again keeps the index in the ring, and the colour, unless no
entry was put since it became valid. -/
def FairWrite (cfg : Cfg) (s : State) (ring : Queue) : Prop :=
  IntrCtx.valid (s.ctx ring selIntCoal) = true → IntrCtx.valid s.data = true →
    s.irqRingEntryIdx ring * 8 < IntrCtx.size cfg.flavour s.data ∧
      (s.blank ring = true ∨ IntrCtx.color cfg.flavour s.data = IntrCtx.color cfg.flavour (s.ctx ring selIntCoal))

/-- The address of the next entry of a ring. -/
def entryAddr (cfg : Cfg) (s : State) (ring : Queue) : Addr :=
  (IntrCtx.baddr cfg.flavour (s.ctx ring selIntCoal)).setWidth 64 <<< 12 + BitVec.ofNat 64 (8 * s.irqRingEntryIdx ring)

/-- A queue that interrupts by way of a ring: there is the ring, and if its context is valid, there is the MSI-X of its
vector, and the store of the entry succeeds. -/
def FairDue (cfg : Cfg) (s : State) (q : Queue) (h2c : Bool) : Prop :=
  SwCtx.irqArm (s.sw q h2c) = true → SwCtx.irqEnabled (s.sw q h2c) = true → s.irqAggregationEnabled cfg q h2c = true →
    ∃ h : s.getVec cfg q h2c < queueCount,
      IntrCtx.valid (s.ctx ⟨s.getVec cfg q h2c, h⟩ selIntCoal) = true →
        IntrCtx.vector cfg.flavour (s.ctx ⟨s.getVec cfg q h2c, h⟩ selIntCoal) < 8 ∧
          cfg.hostBus.writeOk (entryAddr cfg s ⟨s.getVec cfg q h2c, h⟩) = true

def FairRing (cfg : Cfg) (s : State) : Act → Prop
  | .cmd v =>
    (v.extractLsb' 1 4).toNat = selIntCoal → (v.extractLsb' 5 2).toNat = 1 →
      ∀ h : (v.extractLsb' 7 13).toNat < queueCount, FairWrite cfg s ⟨(v.extractLsb' 7 13).toNat, h⟩
  | .iterate =>
    ∀ b, s.busy = some b →
      SwCtx.pidx (s.sw b.qid b.h2c) ≠ s.cidx b.qid b.h2c →
      SwCtx.pidx (s.sw b.qid b.h2c) = State.nextCidx (SwCtx.ringSize (s.sw b.qid b.h2c)) (s.cidx b.qid b.h2c) →
        FairDue cfg s b.qid b.h2c
  | _ => True

/-! ### Events -/

theorem laps_append {ring : Queue} {l : Option Lap} {evs evs' : List Event} :
    Laps ring l (evs ++ evs') ↔ Laps ring l evs ∧ Laps ring (evs.foldl (track ring) l) evs' := by
  induction evs generalizing l with
  | nil => simp [Laps]
  | cons ev evs ih => rw [List.cons_append, Laps, Laps, ih, List.foldl_cons, and_assoc]

theorem served_append {evs evs' : List Event} (h : Served evs) (h' : Served evs') : Served (evs ++ evs') := by
  fun_induction Served evs with
  | case1 => exact h'
  | case2 ring v e v' l ih => exact ⟨h.1, h.2.1, ih h.2.2⟩
  | case3 r l ih => exact ih h
  | case4 v l ih => exact ih h
  | case5 => exact h.elim

theorem laps_msix {ring : Queue} {l : Option Lap} {evs : List Event} (v : ℕ) : Laps ring l (evs ++ [.msix v]) ↔ Laps ring l evs := by
  simp [laps_append, Laps, Fits]

/-! ### The rings -/

/-- Where the index and the colour of a valid ring are. -/
def RingOk (cfg : Cfg) (s : State) (ring : Queue) : Prop :=
  IntrCtx.valid (s.ctx ring selIntCoal) = true →
    ∃ p, s.events.foldl (track ring) none = some p ∧ p.slot = s.irqRingEntryIdx ring ∧ (s.blank ring = true → p.color = none) ∧
      (∀ c, p.color = some c → IntrCtx.color cfg.flavour (s.ctx ring selIntCoal) = c) ∧
      s.irqRingEntryIdx ring * 8 < IntrCtx.size cfg.flavour (s.ctx ring selIntCoal)

structure RingsOk (cfg : Cfg) (s : State) : Prop where
  good : RingsGood s
  ring : ∀ ring, RingOk cfg s ring

variable {cfg : Cfg} {s s' : State} {ring : Queue}

theorem eight_dvd_size (f : Flavour) (c : Ctx) : 8 ∣ IntrCtx.size f c := Nat.dvd_mul_left_of_dvd (by decide) _

/-- What a ring goes by stays. -/
structure SameRing (cfg : Cfg) (s s' : State) (ring : Queue) : Prop where
  valid : IntrCtx.valid (s'.ctx ring selIntCoal) = IntrCtx.valid (s.ctx ring selIntCoal)
  color : IntrCtx.color cfg.flavour (s'.ctx ring selIntCoal) = IntrCtx.color cfg.flavour (s.ctx ring selIntCoal)
  size : IntrCtx.size cfg.flavour (s'.ctx ring selIntCoal) = IntrCtx.size cfg.flavour (s.ctx ring selIntCoal)
  idx : s'.irqRingEntryIdx ring = s.irqRingEntryIdx ring
  blank : s'.blank ring = s.blank ring
  events : s'.events.foldl (track ring) none = s.events.foldl (track ring) none

theorem RingOk.congr (h : RingOk cfg s ring) (hsame : SameRing cfg s s' ring) : RingOk cfg s' ring := by
  rw [RingOk, hsame.valid, hsame.color, hsame.size, hsame.idx, hsame.blank, hsame.events]
  exact h

theorem RingsOk.congr (h : RingsOk cfg s) (hevents : s'.events = s.events) (hsame : ∀ ring, SameRing cfg s s' ring) : RingsOk cfg s' :=
  ⟨⟨hevents ▸ h.good.laps, hevents ▸ h.good.served⟩, fun ring => (h.ring ring).congr (hsame ring)⟩

theorem RingsGood.congr (h : RingsGood s) (hevents : s'.events = s.events) : RingsGood s' := ⟨hevents ▸ h.laps, hevents ▸ h.served⟩

theorem RingsOk.msix (h : RingsOk cfg s) (v : ℕ) : RingsOk cfg { s with events := s.events ++ [.msix v] } := by
  refine ⟨⟨fun ring => (laps_msix v).2 (h.good.laps ring), served_append h.good.served trivial⟩, fun ring => (h.ring ring).congr ?_⟩
  refine ⟨rfl, rfl, rfl, rfl, rfl, ?_⟩
  simp only [List.foldl_append, List.foldl_cons, List.foldl_nil, track]

theorem ctx_setCtx_self (q : Queue) (sel : ℕ) (c : Ctx) : (s.setCtx q sel c).ctx q sel = c := by
  simp only [State.setCtx, Function.update_self]

theorem ctx_setCtx_of_ne {q q' : Queue} {sel sel' : ℕ} (h : q' ≠ q ∨ sel' ≠ sel) (c : Ctx) : (s.setCtx q sel c).ctx q' sel' = s.ctx q' sel' := by
  by_cases hq : q' = q
  · subst hq
    simp only [State.setCtx, Function.update_self]
    rw [Function.update_of_ne (h.resolve_left fun h => h rfl)]
  · simp only [State.setCtx]
    rw [Function.update_of_ne hq]

/-- The context of another ring, or another context, is written. -/
theorem sameRing_setCtx {q : Queue} {sel : ℕ} (h : ring ≠ q ∨ selIntCoal ≠ sel) (c : Ctx) : SameRing cfg s (s.setCtx q sel c) ring := by
  have hctx := ctx_setCtx_of_ne (s := s) h c
  exact ⟨by rw [hctx], by rw [hctx], by rw [hctx], rfl, rfl, rfl⟩

theorem nextEntry_of_wrap (h : (s.irqRingEntryIdx ring + 1) * 8 = IntrCtx.size cfg.flavour (s.ctx ring selIntCoal)) :
    s.nextEntry cfg ring =
      { s.setCtx ring selIntCoal (IntrCtx.setColor cfg.flavour (s.ctx ring selIntCoal) !(IntrCtx.color cfg.flavour (s.ctx ring selIntCoal))) with
        irqRingEntryIdx := Function.update s.irqRingEntryIdx ring 0 } := by
  rw [State.nextEntry]
  exact if_pos h

theorem nextEntry_of_ne (h : (s.irqRingEntryIdx ring + 1) * 8 ≠ IntrCtx.size cfg.flavour (s.ctx ring selIntCoal)) :
    s.nextEntry cfg ring = { s with irqRingEntryIdx := Function.update s.irqRingEntryIdx ring (s.irqRingEntryIdx ring + 1) } := by
  rw [State.nextEntry]
  exact if_neg h

theorem sameRing_nextEntry {r : Queue} (hr : r ≠ ring) : SameRing cfg s (s.nextEntry cfg ring) r := by
  by_cases h : (s.irqRingEntryIdx ring + 1) * 8 = IntrCtx.size cfg.flavour (s.ctx ring selIntCoal)
  · rw [nextEntry_of_wrap h]
    have hsame : SameRing cfg s (s.setCtx ring selIntCoal _) r :=
      sameRing_setCtx (.inl hr) (IntrCtx.setColor cfg.flavour (s.ctx ring selIntCoal) !(IntrCtx.color cfg.flavour (s.ctx ring selIntCoal)))
    exact ⟨hsame.valid, hsame.color, hsame.size, Function.update_of_ne hr _ _, hsame.blank, hsame.events⟩
  · rw [nextEntry_of_ne h]
    exact ⟨rfl, rfl, rfl, Function.update_of_ne hr _ _, rfl, rfl⟩

/-- An entry is put, the index goes on, and the MSI-X follows. -/
theorem ringsOk_entry (h : RingsOk cfg s) (hvalid : IntrCtx.valid (s.ctx ring selIntCoal) = true) (host : Addr → Byte) (v : ℕ) :
    let e : Put := ⟨ring, s.irqRingEntryIdx ring, entryAddr cfg s ring, IntrCtx.color cfg.flavour (s.ctx ring selIntCoal),
      (IntrCtx.baddr cfg.flavour (s.ctx ring selIntCoal)).setWidth 64 <<< 12, IntrCtx.size cfg.flavour (s.ctx ring selIntCoal)⟩
    let s₁ : State := { s with host := host, blank := Function.update s.blank ring false }
    RingsOk cfg { s₁.nextEntry cfg ring with events := s.events ++ [.due ring v, .entry e, .msix v] } := by
  intro e s₁
  obtain ⟨p, hp, hslot, hblank, hcolor, hroom⟩ := h.ring ring hvalid
  have hdvd := eight_dvd_size cfg.flavour (s.ctx ring selIntCoal)
  have hle : (s.irqRingEntryIdx ring + 1) * 8 ≤ IntrCtx.size cfg.flavour (s.ctx ring selIntCoal) := by omega
  refine ⟨⟨fun r => ?_, ?_⟩, fun r => ?_⟩
  · refine laps_append.2 ⟨h.good.laps r, trivial, ?_, trivial, trivial⟩
    intro hr
    obtain rfl : ring = r := hr
    exact ⟨p, hp, hslot.symm, fun c hc => hcolor c hc, hle, rfl⟩
  · exact served_append h.good.served ⟨rfl, rfl, trivial⟩
  · by_cases hr : r = ring
    · subst hr
      intro _
      simp only [List.foldl_append, hp, List.foldl_cons, List.foldl_nil, track]
      have hput : (s₁.nextEntry cfg r).blank r = false := by
        rw [State.nextEntry]
        split_ifs
        · exact Function.update_self _ _ _
        · exact Function.update_self _ _ _
      by_cases hwrap : (s.irqRingEntryIdx r + 1) * 8 = IntrCtx.size cfg.flavour (s.ctx r selIntCoal)
      · have hnext := nextEntry_of_wrap (s := s₁) hwrap
        have hctx : (s₁.nextEntry cfg r).ctx r selIntCoal = IntrCtx.setColor cfg.flavour (s.ctx r selIntCoal) !e.color := by
          rw [hnext]
          exact ctx_setCtx_self r selIntCoal _
        have hidx : (s₁.nextEntry cfg r).irqRingEntryIdx r = 0 := by
          rw [hnext]
          exact Function.update_self _ _ _
        rw [if_pos hwrap, hctx, hidx, IntrCtx.color_setColor, IntrCtx.size_setColor]
        refine ⟨⟨0, some !e.color⟩, if_pos rfl, rfl, fun hb => ?_, fun c hc => Option.some.inj hc, by omega⟩
        exact absurd (hput.symm.trans hb) (by decide)
      · have hnext := nextEntry_of_ne (s := s₁) hwrap
        have hctx : (s₁.nextEntry cfg r).ctx r selIntCoal = s.ctx r selIntCoal := by rw [hnext]
        have hidx : (s₁.nextEntry cfg r).irqRingEntryIdx r = s.irqRingEntryIdx r + 1 := by
          rw [hnext]
          exact Function.update_self _ _ _
        rw [if_neg hwrap, hctx, hidx]
        refine ⟨⟨s.irqRingEntryIdx r + 1, some e.color⟩, if_pos rfl, rfl, fun hb => ?_, fun c hc => Option.some.inj hc, by omega⟩
        exact absurd (hput.symm.trans hb) (by decide)
    · refine (h.ring r).congr ?_
      have hnext : SameRing cfg s₁ (s₁.nextEntry cfg ring) r := sameRing_nextEntry hr
      refine ⟨hnext.valid, hnext.color, hnext.size, hnext.idx, hnext.blank.trans (Function.update_of_ne hr _ _), ?_⟩
      have hne : ¬ring = r := fun h => hr h.symm
      simp only [List.foldl_append, List.foldl_cons, List.foldl_nil, track, e, if_neg hne]

end LibSystemCTLM.Qdma
