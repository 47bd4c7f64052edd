import LibSystemCTLM.Chi.SnoopData

/-!
# Copy-backs among snoops

A copy-back takes a copy of the line when it is set up (`Init` of `WriteTxn`), and says what state the line is in only when
the `DBIDResp` comes (`GetResp`), so that the snoops in between are counted in. The home node writes the copy to the
slave memory if the flit says that it passes dirty data (`ProcessDat` of `iconnect-chi.h`).

`HandleSnpClean` passes the dirty data of a line that is unique to the home node, but leaves it dirty
(`HandleSnpCleanFwd` does not). So a copy-back behind such a snoop passes it again, and the home writes it although it was
not this node's to write any more. With this exception all is as it should be (`carried_iff`).

## The model

One line, and the transaction of its copy-back, between the request and the response. The thread that does the copy-back
keeps the mutex of the cache, so nothing but snoops gets to the line. The home node that is modelled does not send the
data that a stash snoop may pull.
-/

namespace LibSystemCTLM.Chi.CopyBack

open Foundation Tlm CacheLine SnoopData

inductive CopyBackOp where
  | writeBackFull | writeBackPtl | writeCleanFull | writeEvictFull
  deriving DecidableEq

inductive RspOpcode where
  | comp | dbidResp | compDBIDResp
  deriving DecidableEq

/-! ### The data flit -/

/-- `CopyBackWrData_I`, and the others. -/
def respI : BitVec 3 := 0

def respSC : BitVec 3 := 1

def respUC : BitVec 3 := 2

def respUD_PD : BitVec 3 := 6

def respSD_PD : BitVec 3 := 7

/-- `CopyBackWrData`, of a whole line. -/
structure Flit where
  resp : BitVec 3
  data : ℕ → Byte
  byteEnable : ℕ → Bool

/-- `GetPassDirty`. -/
def Flit.passDirty (f : Flit) : Bool := f.resp.getLsbD 2

/-- `CopyWriteData`. -/
def copyWriteData (f : Flit) : (ℕ → Byte) × (ℕ → Bool) := (fun k => if f.byteEnable k = true then f.data k else 0, f.byteEnable)

/-- `ProcessDat`: what is written to the slave memory. -/
def processDat (f : Flit) : Option ((ℕ → Byte) × (ℕ → Bool)) := if f.passDirty = true then some (copyWriteData f) else none

/-! ### The transaction -/

structure WriteTxn where
  opcode : CopyBackOp
  data : ℕ → Byte
  byteEnable : ℕ → Bool
  gotDBID : Bool := false
  gotComp : Bool := false

structure State where
  line : CacheLine
  t : WriteTxn
  /-- Dirty data of the line is this node's to write. -/
  owes : Bool

inductive Event where
  | snoop (op : Snoop) (addr : Addr) (nonSecure retToSrc doNotDataPull : Bool)
  | rsp (rsp : RspOpcode)

/-- A snoop after which the data may be dropped. -/
def discards : Snoop → Bool
  | .snp .snpMakeInvalid | .stash .snpMakeInvalidStash => true
  | _ => false

/-- A line that has data to be written. -/
def live (l : CacheLine) : Bool := l.valid && l.dirty

/-- `Init`. -/
def start (opcode : CopyBackOp) (l : CacheLine) : State where
  line := l
  t := { opcode := opcode, data := l.data, byteEnable := l.byteEnable }
  owes := live l

namespace State

variable (s : State)

/-- `GetResp`, and the byte enables that it leaves. -/
def getResp : BitVec 3 × (ℕ → Bool) :=
  if s.line.valid = false then (respI, fun _ => false)
  else
    match s.line.shared, s.line.dirty with
    | true, true => (respSD_PD, s.t.byteEnable)
    | true, false => (respSC, s.t.byteEnable)
    | false, true => (respUD_PD, s.t.byteEnable)
    | false, false => (respUC, s.t.byteEnable)

/-- `UpdateLineStatus`. -/
def updateLineStatus : CacheLine :=
  match s.t.opcode with
  | .writeCleanFull => s.line.setDirty false
  | .writeBackPtl | .writeBackFull | .writeEvictFull => s.line.setValid false

/-- `SetupWriteDat`, and what follows it. -/
def setupWriteDat : State × Option Flit :=
  ({ s with line := s.updateLineStatus, t := { s.t with byteEnable := s.getResp.2, gotDBID := true } },
    some ⟨s.getResp.1, s.t.data, s.getResp.2⟩)

/-- `HandleRxRsp`, and the flit that is to be sent. -/
def handleRxRsp (rsp : RspOpcode) : State × Option Flit :=
  if s.t.gotComp = false ∧ rsp = .comp then ({ s with t := { s.t with gotComp := true } }, none)
  else if s.t.gotDBID = false ∧ rsp = .dbidResp then s.setupWriteDat
  else if s.t.gotDBID = false ∧ s.t.gotComp = false ∧ rsp = .compDBIDResp then
    ({ s with t := { s.t with gotComp := true } } : State).setupWriteDat
  else (s, none)

/-- `HandleSnp`. The data is another's to write once a response passes it on, or it may be dropped. -/
def handleSnp (op : Snoop) (addr : Addr) (nonSecure retToSrc doNotDataPull : Bool) : State :=
  if s.line.inCache addr nonSecure = true then
    let (l, r) := handle retToSrc doNotDataPull s.line op
    { s with line := l, owes := s.owes && !(r.passes || discards op) }
  else s

def step : Event → State
  | .snoop op addr nonSecure retToSrc doNotDataPull => s.handleSnp op addr nonSecure retToSrc doNotDataPull
  | .rsp rsp => (s.handleRxRsp rsp).1

def run (es : List Event) : State := es.foldl step s

end State

/-! ### What is to be sent -/

section Carried

variable {s : State} {e : Event} {es : List Event} {f : Flit} {rsp : RspOpcode} {l : CacheLine} {op : Snoop} {opcode : CopyBackOp}
  {retToSrc doNotDataPull : Bool}

/-- The response is that of a line in this state. -/
def Describes (l : CacheLine) (f : Flit) : Prop :=
  if l.valid = false then f.resp = respI ∧ ∀ k < 64, f.byteEnable k = false
  else f.resp = if l.shared = true then (if l.dirty = true then respSD_PD else respSC) else if l.dirty = true then respUD_PD else respUC

/-- **The copy-back carries the line**, as it is in the state in which the `DBIDResp` comes. -/
structure Carried (s : State) (f : Flit) : Prop where
  describes : Describes s.line f
  latest : f.passDirty = true → ∀ k < 64, f.data k = s.line.data k ∧ f.byteEnable k = s.line.byteEnable k
  written : (processDat f).isSome = s.owes
  writes : ∀ w ∈ processDat f, ∀ k < 64, w.2 k = s.line.byteEnable k ∧ (w.2 k = true → w.1 k = s.line.data k)

/-- A snoop that is answered with the dirty data of a line that is unique, and leaves it dirty. -/
def sharesDirty (l : CacheLine) : Snoop → Bool
  | .snp .snpClean | .snp .snpShared | .snp .snpNotSharedDirty => decide (l.getStatus = .ud)
  | _ => false

/-- The same, of an event. -/
def Event.sharesDirty (l : CacheLine) : Event → Bool
  | .snoop op addr nonSecure _ _ => l.inCache addr nonSecure && CopyBack.sharesDirty l op
  | .rsp _ => false

/-- A valid line is dirty only if a byte was stored. -/
def Stored (l : CacheLine) : Prop := live l = true → l.getFillGrade ≠ .empty

/-! ### Lines -/

theorem getFillGrade_eq_empty : l.getFillGrade = .empty ↔ ∀ k < 64, l.byteEnable k = false := by
  rw [getFillGrade]
  split_ifs with hall hany
  · refine iff_of_false nofun fun h => ?_
    have hzero := List.all_eq_true.1 hall 0 (by decide)
    rw [h 0 (by decide)] at hzero
    cases hzero
  · refine iff_of_false nofun fun h => ?_
    obtain ⟨k, hk, henabled⟩ := List.any_eq_true.1 hany
    rw [h k (List.mem_range.1 hk)] at henabled
    cases henabled
  · refine iff_of_true rfl fun k hk => Bool.eq_false_of_not_eq_true fun henabled => hany ?_
    exact List.any_eq_true.2 ⟨k, List.mem_range.2 hk, henabled⟩

/-- A store marks the line as dirty only if it has a byte. -/
theorem stored_writeLine {gp : GenericPayload} {pos : ℕ} (h : Stored l) : Stored (l.writeLine gp pos) := by
  unfold writeLine
  simp only
  split_ifs with hfill
  · exact fun _ => hfill
  · intro hlive
    refine absurd (getFillGrade_eq_empty.2 fun k hk => ?_) (h hlive)
    have hwritten := getFillGrade_eq_empty.1 (not_not.1 hfill) k hk
    exact (Bool.or_eq_false_iff.1 hwritten).2

theorem weakens_handle (retToSrc doNotDataPull : Bool) (l : CacheLine) (op : Snoop) : Weakens l (handle retToSrc doNotDataPull l op).1 := by
  cases op with
  | snp op => exact snoop_weakens retToSrc op l
  | stash op =>
    cases op with
    | snpUniqueStash =>
      rw [handle, StashPull.handleSnpUniqueStash]
      cases l.getStatus <;> exact weakens_setValid
    | snpMakeInvalidStash => exact weakens_setValid
    | snpStashUnique =>
      rw [handle, StashPull.handleSnpStashUnique]
      cases l.getStatus <;> exact .refl
    | snpStashShared =>
      rw [handle, StashPull.handleSnpStashShared]
      cases l.getStatus <;> exact .refl

theorem dirty_of_getStatus (h : Stored l) : ((l.getStatus = .ud ∨ l.getStatus = .sd) → l.dirty = true) ∧
    ((l.getStatus = .uc ∨ l.getStatus = .sc ∨ l.getStatus = .uce) → l.dirty = false) ∧ (l.getStatus = .inv → l.valid = false) := by
  rw [Stored, live] at h
  cases hv : l.valid <;> cases hs : l.shared <;> cases hd : l.dirty <;> cases hg : l.getFillGrade <;> simp_all [getStatus]

/-- **What a snoop leaves to be written**: all that it neither passes on nor drops, and what it shares. -/
theorem live_handle (h : Stored l) (hvalid : l.valid = true) :
    live (handle retToSrc doNotDataPull l op).1 =
      (live l && (!((handle retToSrc doNotDataPull l op).2.passes || discards op) || sharesDirty l op)) := by
  obtain ⟨hdirty, hclean, hinv⟩ := dirty_of_getStatus h
  cases op with
  | snp op =>
    cases op <;> cases hs : l.getStatus <;>
      simp_all [live, handle, snoop, handleSnpOnce, handleSnpClean, handleSnpUnique, handleSnpCleanShared, handleSnpCleanInvalid,
        handleSnpMakeInvalid, handleSnpOnceFwd, handleSnpCleanFwd, handleSnpUniqueFwd, setValid, setShared, setDirty, SnpResp.passes,
        SnpResp.snpResp, SnpResp.snpRespData, SnpResp.snpRespDataPtl, SnpResp.snpRespFwded, discards, sharesDirty]
  | stash op =>
    cases op <;> cases hs : l.getStatus <;>
      simp_all [live, handle, StashPull.handleSnpUniqueStash, StashPull.handleSnpMakeInvalidStash, StashPull.handleSnpStashUnique,
        StashPull.handleSnpStashShared, setValid, SnpResp.passes, SnpResp.snpResp, SnpResp.snpRespData, SnpResp.snpRespDataPtl, discards,
        sharesDirty]

/-! ### Runs -/

/-- The response did not come yet. -/
def Waits (s : State) : Prop := s.t.gotDBID = false

/-- What is kept until the response comes. -/
structure Inv (s : State) : Prop where
  data : s.t.data = s.line.data
  byteEnable : s.t.byteEnable = s.line.byteEnable
  stored : Stored s.line
  owes : s.owes = true → live s.line = true

theorem passes_of_sharesDirty (h : sharesDirty l op = true) : (handle retToSrc doNotDataPull l op).2.passes = true := by
  cases op with
  | snp op => cases op <;> simp_all [sharesDirty, handle, snoop, handleSnpClean, SnpResp.passes, SnpResp.snpRespData]
  | stash op => cases h

/-- What a step does that is not the response. -/
theorem step_cases (hgot : Waits (s.step e)) : Waits s ∧
    ((s.step e).t.data = s.t.data ∧ (s.step e).t.byteEnable = s.t.byteEnable) ∧
      ((e.sharesDirty s.line = false ∧ (s.step e).line = s.line ∧ (s.step e).owes = s.owes) ∨
        ∃ op addr nonSecure retToSrc doNotDataPull, e = .snoop op addr nonSecure retToSrc doNotDataPull ∧
          s.line.inCache addr nonSecure = true ∧ (s.step e).line = (handle retToSrc doNotDataPull s.line op).1 ∧
            (s.step e).owes = (s.owes && !((handle retToSrc doNotDataPull s.line op).2.passes || discards op))) := by
  cases e with
  | snoop op addr nonSecure retToSrc doNotDataPull =>
    rw [Waits, State.step, State.handleSnp] at hgot
    rw [State.step, State.handleSnp]
    by_cases hin : s.line.inCache addr nonSecure = true
    · rw [if_pos hin] at hgot
      rw [if_pos hin]
      exact ⟨hgot, ⟨rfl, rfl⟩, .inr ⟨op, addr, nonSecure, retToSrc, doNotDataPull, rfl, hin, rfl, rfl⟩⟩
    · rw [if_neg hin] at hgot
      rw [if_neg hin]
      refine ⟨hgot, ⟨rfl, rfl⟩, .inl ⟨?_, rfl, rfl⟩⟩
      rw [Event.sharesDirty, Bool.eq_false_of_not_eq_true hin, Bool.false_and]
  | rsp rsp =>
    rw [Waits, State.step, State.handleRxRsp] at hgot
    rw [State.step, State.handleRxRsp]
    split_ifs at hgot ⊢
    · exact ⟨hgot, ⟨rfl, rfl⟩, .inl ⟨rfl, rfl, rfl⟩⟩
    · cases hgot
    · cases hgot
    · exact ⟨hgot, ⟨rfl, rfl⟩, .inl ⟨rfl, rfl, rfl⟩⟩

/-- The data to be written, of a step: what is taken is not written by this node, and what is shared is taken. -/
theorem live_step (h : Inv s) (hgot : Waits (s.step e)) : ∃ taken : Bool,
    (s.step e).owes = (s.owes && !taken) ∧ live (s.step e).line = (live s.line && (!taken || e.sharesDirty s.line)) ∧
      (e.sharesDirty s.line = true → taken = true) := by
  obtain ⟨-, -, ⟨hshare, hline, howes⟩ | ⟨op, addr, nonSecure, retToSrc, doNotDataPull, rfl, hin, hline, howes⟩⟩ := step_cases hgot
  · refine ⟨false, by rw [howes, Bool.not_false, Bool.and_true], by rw [hline, Bool.not_false, Bool.true_or, Bool.and_true], ?_⟩
    rw [hshare]
    nofun
  · have hvalid : s.line.valid = true := (Bool.and_eq_true _ _ ▸ hin).1
    refine ⟨_, howes, ?_, fun hshare => ?_⟩
    · rw [hline, live_handle h.stored hvalid, Event.sharesDirty, hin, Bool.true_and]
    · rw [Event.sharesDirty, hin, Bool.true_and] at hshare
      rw [passes_of_sharesDirty hshare, Bool.true_or]

theorem inv_step (h : Inv s) (hgot : Waits (s.step e)) : Inv (s.step e) := by
  obtain ⟨taken, howes, hlive, -⟩ := live_step h hgot
  obtain ⟨-, ⟨hdata, hbyte⟩, hstep⟩ := step_cases hgot
  have hw : Weakens s.line (s.step e).line := by
    obtain ⟨-, hline, -⟩ | ⟨op, addr, nonSecure, retToSrc, doNotDataPull, -, -, hline, -⟩ := hstep
    · rw [hline]
      exact .refl
    · rw [hline]
      exact weakens_handle retToSrc doNotDataPull s.line op
  refine ⟨hdata.trans (h.data.trans hw.data.symm), hbyte.trans (h.byteEnable.trans hw.byteEnable.symm), fun hl => ?_, fun ho => ?_⟩
  · rw [hlive, Bool.and_eq_true] at hl
    have hfill : (s.step e).line.getFillGrade = s.line.getFillGrade := by rw [getFillGrade, getFillGrade, hw.byteEnable]
    rw [hfill]
    exact h.stored hl.1
  · rw [howes, Bool.and_eq_true] at ho
    rw [hlive, h.owes ho.1, ho.2]
    rfl

/-! ### Runs -/

theorem waits_of_step (s : State) (e : Event) (hgot : Waits (s.step e)) : Waits s := (step_cases hgot).1

theorem inv_run (h : Inv s) (hgot : Waits (s.run es)) : Inv (s.run es) :=
  inv_foldl waits_of_step (fun _ _ h hgot => inv_step h hgot) h hgot

theorem live_of_run (h : Inv s) (hgot : Waits (s.run es)) (hlive : live (s.run es).line = true) : live s.line = true := by
  induction es generalizing s with
  | nil => exact hlive
  | cons e es ih =>
    have hgot' : Waits (s.step e) := good_of_foldl waits_of_step hgot
    obtain ⟨taken, -, hstep, -⟩ := live_step h hgot'
    have hlive' := ih (inv_step h hgot') hgot hlive
    rw [hstep, Bool.and_eq_true] at hlive'
    exact hlive'.1

/-- Of a line that is dirty at the end, the data is this node's to write exactly if it was shared by none of the snoops. -/
theorem owes_run_iff (h : Inv s) (hgot : Waits (s.run es)) (hlive : live (s.run es).line = true) :
    (s.run es).owes = true ↔ s.owes = true ∧ RunOk (fun s e => some (s.step e)) (fun s e => e.sharesDirty s.line = false) s es := by
  induction es generalizing s with
  | nil => exact (and_iff_left trivial).symm
  | cons e es ih =>
    have hgot' : Waits (s.step e) := good_of_foldl waits_of_step hgot
    have hinv := inv_step h hgot'
    obtain ⟨taken, howes, hstep, htaken⟩ := live_step h hgot'
    have hlive' := live_of_run hinv hgot hlive
    rw [hstep, Bool.and_eq_true, Bool.or_eq_true, Bool.not_eq_true'] at hlive'
    refine (ih hinv hgot hlive).trans ?_
    rw [howes, Bool.and_eq_true, Bool.not_eq_true', and_assoc]
    refine and_congr_right fun _ => ⟨fun ⟨htaken', hrun⟩ => ⟨?_, ?_⟩, fun ⟨hshare, hrun⟩ => ⟨?_, hrun _ rfl⟩⟩
    · refine Bool.eq_false_of_not_eq_true fun hshare => ?_
      rw [htaken hshare] at htaken'
      cases htaken'
    · rintro _ ⟨⟩
      exact hrun
    · refine hlive'.2.resolve_right fun hshare' => ?_
      rw [hshare] at hshare'
      cases hshare'

/-! ### The flit -/

theorem inv_start (opcode : CopyBackOp) (h : Stored l) : Inv (start opcode l) := ⟨rfl, rfl, h, id⟩

theorem flit_of_handleRxRsp (h : (s.handleRxRsp rsp).2 = some f) : Waits s ∧ f = ⟨s.getResp.1, s.t.data, s.getResp.2⟩ := by
  rw [State.handleRxRsp] at h
  split_ifs at h with h₁ h₂ h₃
  · exact ⟨h₂.1, (Option.some.inj h).symm⟩
  · exact ⟨h₃.1, (Option.some.inj h).symm⟩

theorem describes_getResp (s : State) : Describes s.line ⟨s.getResp.1, s.t.data, s.getResp.2⟩ := by
  rw [Describes, State.getResp]
  cases hv : s.line.valid with
  | false => exact ⟨rfl, fun _ _ => rfl⟩
  | true => cases hs : s.line.shared <;> cases hd : s.line.dirty <;> simp

/-- Dirty data is passed on if there is some. -/
theorem passDirty_getResp (s : State) : Flit.passDirty ⟨s.getResp.1, s.t.data, s.getResp.2⟩ = live s.line := by
  rw [Flit.passDirty, State.getResp, live]
  cases s.line.valid <;> cases s.line.shared <;> cases s.line.dirty <;> simp [respI, respSC, respUC, respUD_PD, respSD_PD]

theorem byteEnable_getResp (h : live s.line = true) : s.getResp.2 = s.t.byteEnable := by
  rw [live, Bool.and_eq_true] at h
  rw [State.getResp, h.1, h.2]
  cases s.line.shared <;> rfl

/-- **A copy-back is right exactly if dirty data was not shared before**: for any snoops between its request and the response, the flit
describes the line, and passes on its latest bytes if it is dirty, and the home node writes these if they are this node's to write,
unless the line is still dirty behind a snoop that was answered with the dirty data of the unique line. -/
theorem carried_iff (hstored : Stored l) (hflit : (((start opcode l).run es).handleRxRsp rsp).2 = some f) :
    Carried ((start opcode l).run es) f ↔
      (live ((start opcode l).run es).line = true →
        RunOk (fun s e => some (s.step e)) (fun s e => e.sharesDirty s.line = false) (start opcode l) es) := by
  obtain ⟨hgot, rfl⟩ := flit_of_handleRxRsp hflit
  have hinv := inv_run (inv_start opcode hstored) hgot
  have howes := owes_run_iff (inv_start opcode hstored) hgot
  have hstart := live_of_run (inv_start opcode hstored) hgot
  generalize (start opcode l).run es = s at *
  have hsome : (processDat ⟨s.getResp.1, s.t.data, s.getResp.2⟩).isSome = live s.line := by
    rw [processDat, passDirty_getResp]
    cases live s.line <;> rfl
  constructor
  · intro h hlive
    exact ((howes hlive).1 (by rw [← h.written, hsome, hlive])).2
  · intro h
    refine ⟨describes_getResp s, fun hdirty k _ => ?_, ?_, fun w hw k _ => ?_⟩
    · rw [passDirty_getResp] at hdirty
      rw [byteEnable_getResp hdirty, hinv.data, hinv.byteEnable]
      exact ⟨rfl, rfl⟩
    · rw [hsome]
      cases hlive : live s.line with
      | false =>
        refine (Bool.eq_false_of_not_eq_true fun ho => ?_).symm
        rw [hinv.owes ho] at hlive
        cases hlive
      | true => exact ((howes hlive).2 ⟨hstart hlive, h hlive⟩).symm
    · rw [processDat, Option.mem_def] at hw
      split_ifs at hw with hdirty
      obtain rfl := Option.some.inj hw
      rw [passDirty_getResp] at hdirty
      rw [copyWriteData, byteEnable_getResp hdirty, hinv.data, hinv.byteEnable]
      exact ⟨rfl, fun hk => if_pos hk⟩

end Carried

/-! ### Two snoops -/

/-- A line of address 0 that is unique and dirty. -/
def dirty : CacheLine := { valid := true, dirty := true, data := fun _ => 1 }

theorem stored_dirty : Stored dirty := fun _ => by decide

/-- A `WriteBackFull` of a line that was read with `SnpOnce` is right. -/
theorem carried_snpOnce : ∃ f, Carried ((start .writeBackFull dirty).run [.snoop (.snp .snpOnce) 0 false false false]) f := by
  have hflit : (((start .writeBackFull dirty).run [.snoop (.snp .snpOnce) 0 false false false]).handleRxRsp .compDBIDResp).2 = some _ := rfl
  exact ⟨_, (carried_iff stored_dirty hflit).2 fun _ => ⟨rfl, fun _ _ => trivial⟩⟩

/-- Of one that was given to another node by `SnpShared`, the home node writes the data, which is not this node's to write. -/
theorem not_carried_snpShared : ∃ f, (((start .writeBackFull dirty).run [.snoop (.snp .snpShared) 0 false false false]).handleRxRsp
    .compDBIDResp).2 = some f ∧ ¬ Carried ((start .writeBackFull dirty).run [.snoop (.snp .snpShared) 0 false false false]) f := by
  refine ⟨_, rfl, fun h => ?_⟩
  have hwritten := h.written
  revert hwritten
  decide

end LibSystemCTLM.Chi.CopyBack
