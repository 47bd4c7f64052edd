import LibSystemCTLM.Ace.SnoopMaster
import LibSystemCTLM.Tlm.Payload
import Mathlib.Data.List.Perm.Basic
import Mathlib.Data.List.Nodup

/-!
# The snoop channels of an ACE slave

`ACESnoopChannels_S` of `private/ace/snoop-channels.h`: a `b_transport` gets on the list of overlapping transactions,
waits there, and hands its transaction to `ac_thread`, from where it goes to `cr_thread` and, if it has data, to
`cd_thread`, until one of them has it done. What it waits for on the list is for the environment to say here.

A reset aborts what the threads have, and those of `b_transport` that wait leave with an error. These stay on the list,
and `cd_thread`, which is to go on with the next transaction, goes on with the next beat of the one it has aborted. So
a reset is recovered from if all on the list are with the threads, and `cd_thread` has none of them (`right_of_inv`).
With the master's side (`SnoopMaster`), `recovered_of_runs` is about any run of the two.
-/

namespace LibSystemCTLM.Ace.SnoopSlave

open Foundation Tlm

/-- Where a `b_transport` is. -/
inductive Phase where
  | idle | delaying
  /-- In `wait_for_overlapping_tx` or `wait_for_response_channels`. -/
  | waiting
  /-- In `lock_snoop.lock`, or before a full `acFifo`. -/
  | locking
  /-- In `wait(tr.DoneEvent())`. -/
  | acting
  /-- `DoneEvent` is notified. -/
  | woken
  | returned
  deriving DecidableEq

inductive Thread where
  | ac | cr | cd

structure State where
  resetn : Bool := true
  /-- The `b_transport`s that have not returned. -/
  calls : List ℕ := []
  /-- `m_overlapList`. -/
  overlapList : List ℕ := []
  phase : ℕ → Phase := fun _ => .idle
  resp : ℕ → Tlm.Response := fun _ => .incomplete
  acFifo : List ℕ := []
  crFifo : List ℕ := []
  cdFifo : List ℕ := []
  acCur : Option ℕ := none
  crCur : Option ℕ := none
  /-- `ac_thread` is at `crFifo.write`, and `cr_thread` at `cdFifo.write`. -/
  acStuck : Bool := false
  crStuck : Bool := false
  /-- The transaction of `cd_thread`, and `pos`. -/
  cdCur : Option (ℕ × ℕ) := none
  /-- The threads in `wait_for_reset_release`. -/
  acWaits : Bool := false
  crWaits : Bool := false
  cdWaits : Bool := false
  len : ℕ → ℕ := fun _ => 0
  data : ℕ → ℕ → Tlm.Byte := fun _ _ => 0
  /-- The `b_transport`s that a reset has met. -/
  met : ℕ → Bool := fun _ => false

inductive Event where
  | call (id len : ℕ)
  /-- A `b_transport` goes on: it has something to wait for on the list, or for the lock. -/
  | turn (id : ℕ) (blocked locked : Bool)
  | acTake
  | acTurn (acready : Bool)
  | crTake
  | crTurn (crvalid errorBit dataTransfer : Bool)
  | cdTake
  /-- `cdvalid`, and the bytes of `cddata`. -/
  | cdTurn (cdvalid : Bool) (cddata : ℕ → Tlm.Byte)
  | reset
  | release
  | awake (t : Thread)

/-- The size of a `sc_fifo`. -/
def fifoSize : ℕ := 16

namespace State

variable (s : State) (ids : List ℕ) (id : ℕ)

/-- The transactions that the threads have, the first ones first. -/
def held : List ℕ := (s.cdCur.map (·.1)).toList ++ s.cdFifo ++ s.crCur.toList ++ s.crFifo ++ s.acCur.toList ++ s.acFifo

/-- The response is set, and `DoneEvent` notified. -/
def finish (r : Tlm.Response) : State :=
  { s with
    phase := fun i => if i ∈ ids ∧ s.phase i = .acting then .woken else s.phase i
    resp := fun i => if i ∈ ids then r else s.resp i }

/-- The end of a `b_transport`. -/
def leave : State := { s with calls := s.calls.filter (· ≠ id), phase := Function.update s.phase id .returned }

def fail : State := { s.leave id with resp := Function.update s.resp id .error }

/-- From the list on. -/
def goOn (blocked locked : Bool) : State :=
  if blocked = true then { s with phase := Function.update s.phase id .waiting }
  else if locked = true ∨ fifoSize ≤ s.acFifo.length then { s with phase := Function.update s.phase id .locking }
  else { s with acFifo := s.acFifo ++ [id], phase := Function.update s.phase id .acting }

/-- `b_transport`. -/
def turn (blocked locked : Bool) : Option State :=
  match s.phase id with
  | .delaying =>
    if s.resetn = false then some (s.fail id)
    else some ({ s with overlapList := s.overlapList ++ [id] }.goOn id blocked locked)
  | .waiting => if s.resetn = false then some (s.fail id) else some (s.goOn id blocked locked)
  | .locking => some (s.goOn id false (s.resetn && locked))
  | .woken => some { s.leave id with overlapList := s.overlapList.filter (· ≠ id) }
  | _ => none

/-- `crFifo.write`. -/
def writeCr : State :=
  if s.crFifo.length < fifoSize then { s with acCur := none, acStuck := false, crFifo := s.crFifo ++ [id] } else { s with acStuck := true }

/-- `cdFifo.write`. -/
def writeCd : State :=
  if s.cdFifo.length < fifoSize then { s with crCur := none, crStuck := false, cdFifo := s.cdFifo ++ [id] } else { s with crStuck := true }

/-- `ac_thread`, at `acready`. -/
def acTurn (acready : Bool) : State :=
  if s.acStuck = true then s.writeCr id
  else if s.resetn = false then { s.finish [id] .error with acCur := none, acWaits := true }
  else if acready = true then s.writeCr id
  else s

/-- `cr_thread`, at `crvalid`. -/
def crTurn (crvalid errorBit dataTransfer : Bool) : State :=
  if s.crStuck = true then s.writeCd id
  else if s.resetn = false then { s.finish [id] .error with crCur := none, crWaits := true }
  else if crvalid = false then s
  else if errorBit = true then { s.finish [id] .error with crCur := none }
  else if dataTransfer = true then s.writeCd id
  else { s.finish [id] .ok with crCur := none }

/-- The condition of the inner loop of `cd_thread`, and what comes behind the loop. -/
def cdLoop (pos : ℕ) : State := if pos < s.len id then { s with cdCur := some (id, pos) } else { s.finish [id] .ok with cdCur := none }

/-- A beat of `busWidth` bytes, of which those beyond the end are left. -/
def storeBeat (busWidth pos : ℕ) (cddata : ℕ → Tlm.Byte) : State :=
  { s with data := Function.update s.data id fun k => if pos ≤ k ∧ k < min (pos + busWidth) (s.len id) then cddata (k - pos) else s.data id k }

/-- `cd_thread`, at `cdvalid`. -/
def cdTurn (busWidth pos : ℕ) (cdvalid : Bool) (cddata : ℕ → Tlm.Byte) : State :=
  if s.resetn = false then { s.finish [id] .error with cdWaits := true }
  else if cdvalid = false then s
  else (s.storeBeat id busWidth pos cddata).cdLoop id (min (pos + busWidth) (s.len id))

/-- `tlm2axi_clear_fifo`, of each fifo. -/
def clear : State := { s.finish (s.cdFifo ++ s.crFifo ++ s.acFifo) .error with acFifo := [], crFifo := [], cdFifo := [] }

/-- `resetn` is low. -/
def strike : State :=
  { s with
    resetn := false
    met := fun i => s.met i || decide (s.phase i ≠ .idle ∧ s.phase i ≠ .woken ∧ s.phase i ≠ .returned) }

/-- What wakes with the reset has run. -/
def settled : Bool :=
  (s.acCur.isNone || s.acStuck) && (s.crCur.isNone || s.crStuck) && (s.cdCur.isNone || s.cdWaits) &&
    s.calls.all fun i => decide (s.met i = true → s.phase i ≠ .delaying ∧ s.phase i ≠ .waiting ∧ s.phase i ≠ .locking)

end State

def step (busWidth : ℕ) (s : State) : Event → Option State
  | .call id len =>
    if s.phase id = .idle ∨ s.phase id = .returned then
      some { s with
        calls := s.calls ++ [id]
        phase := Function.update s.phase id .delaying
        resp := Function.update s.resp id .incomplete
        len := Function.update s.len id len
        met := Function.update s.met id false }
    else none
  | .turn id blocked locked => s.turn id blocked locked
  | .acTake =>
    match s.acCur, s.acFifo with
    | none, id :: rest => if s.acWaits = false then some { s with acCur := some id, acFifo := rest } else none
    | _, _ => none
  | .acTurn acready => s.acCur.map fun id => s.acTurn id acready
  | .crTake =>
    match s.crCur, s.crFifo with
    | none, id :: rest => if s.crWaits = false then some { s with crCur := some id, crFifo := rest } else none
    | _, _ => none
  | .crTurn crvalid errorBit dataTransfer => s.crCur.map fun id => s.crTurn id crvalid errorBit dataTransfer
  | .cdTake =>
    match s.cdCur, s.cdFifo with
    | none, id :: rest => if s.cdWaits = false then some ({ s with cdFifo := rest }.cdLoop id 0) else none
    | _, _ => none
  | .cdTurn cdvalid cddata =>
    match s.cdCur with
    | some (id, pos) => if s.cdWaits = false then some (s.cdTurn id busWidth pos cdvalid cddata) else none
    | none => none
  | .reset => if s.resetn = true then some s.clear.strike else none
  | .release => if s.resetn = false ∧ s.settled = true then some { s with resetn := true } else none
  | .awake .ac => if s.resetn = true then some { s with acWaits := false } else none
  | .awake .cr => if s.resetn = true then some { s with crWaits := false } else none
  | .awake .cd => if s.resetn = true then some { s with cdWaits := false } else none

/-! ### The property -/

/-- **A reset is recovered from.** -/
structure Right (busWidth : ℕ) (s : State) : Prop where
  /-- There is no transaction on the list that has returned. -/
  listed : ∀ id ∈ s.overlapList, id ∈ s.calls
  error : ∀ id, s.met id = true → s.phase id = .returned → s.resp id = .error
  /-- What a reset has met returns with an error, without anything to wait for. -/
  returns : ∀ id ∈ s.calls, s.met id = true → ∃ es s', run (step busWidth) s es = some s' ∧ s'.phase id = .returned ∧ s'.resp id = .error
  /-- Beats are stored for no other transactions than those that the threads have not done with. -/
  stored : ∀ cdvalid cddata s', step busWidth s (.cdTurn cdvalid cddata) = some s' → ∀ id, s.phase id ≠ .acting → s'.data id = s.data id

/-- A reset finds all that is on the list with the threads, none of them at a full fifo, and no data on its way. -/
def Fair (s : State) : Event → Prop
  | .reset => (∀ id ∈ s.overlapList, s.phase id ≠ .waiting ∧ s.phase id ≠ .locking) ∧ s.acStuck = false ∧ s.crStuck = false ∧ s.cdCur = none
  | _ => True

instance : ∀ s e, Decidable (Fair s e)
  | s, .reset => inferInstanceAs (Decidable ((∀ id ∈ s.overlapList, s.phase id ≠ .waiting ∧ s.phase id ≠ .locking) ∧ s.acStuck = false ∧
      s.crStuck = false ∧ s.cdCur = none))
  | _, .call _ _ | _, .turn _ _ _ | _, .acTake | _, .acTurn _ | _, .crTake | _, .crTurn _ _ _ | _, .cdTake | _, .cdTurn _ _ | _, .release
  | _, .awake _ => .isTrue trivial

/-- What holds in reset. -/
structure Low (s : State) : Prop where
  cdCur : s.cdCur = none
  cdFifo : s.cdFifo = []
  crFifo : s.crFifo = []
  acFifo : s.acFifo = []
  acStuck : s.acStuck = false
  crStuck : s.crStuck = false
  phase : ∀ id, s.phase id ≠ .waiting ∧ s.phase id ≠ .locking

/-- What holds along a run. -/
structure Inv (s : State) : Prop where
  nodup : s.held.Nodup
  acting : ∀ {id}, s.phase id = .acting ↔ id ∈ s.held
  calls : ∀ {id}, id ∈ s.calls ↔ s.phase id ≠ .idle ∧ s.phase id ≠ .returned
  listed : ∀ {id}, id ∈ s.overlapList → s.phase id ≠ .idle ∧ s.phase id ≠ .delaying ∧ s.phase id ≠ .returned
  onList : ∀ {id}, s.phase id = .waiting ∨ s.phase id = .locking → id ∈ s.overlapList
  met : ∀ {id}, s.met id = true → s.resetn = true → s.phase id = .woken ∨ s.phase id = .returned
  error : ∀ {id}, s.met id = true → s.phase id = .woken ∨ s.phase id = .returned → s.resp id = .error
  notIdle : ∀ {id}, s.met id = true → s.phase id ≠ .idle
  low : s.resetn = false → Low s
  acWaits : s.acWaits = true → s.acCur = none
  crWaits : s.crWaits = true → s.crCur = none

theorem inv_init : Inv {} where
  nodup := List.nodup_nil
  acting := ⟨nofun, nofun⟩
  calls := ⟨nofun, fun h => absurd rfl h.1⟩
  listed := nofun
  onList h := h.elim nofun nofun
  met := nofun
  error := nofun
  notIdle := nofun
  low := nofun
  acWaits := nofun
  crWaits := nofun

variable {s s' : State} {id : ℕ}

/-! ### Steps -/

/-- **The threads move transactions on**, and have some of them done. -/
theorem Inv.move (hi : Inv s) (ids : List ℕ) (r : Tlm.Response) (hperm : s.held.Perm (ids ++ s'.held)) (hphase : s'.phase = (s.finish ids r).phase)
    (hresp : s'.resp = (s.finish ids r).resp) (hcalls : s'.calls = s.calls) (hlist : s'.overlapList = s.overlapList) (hmet : s'.met = s.met)
    (hresetn : s'.resetn = s.resetn) (hr : ∀ i ∈ ids, s.met i = true → r = .error) (hlow : s'.resetn = false → Low s')
    (hac : s'.acWaits = true → s'.acCur = none) (hcr : s'.crWaits = true → s'.crCur = none) : Inv s' := by
  have hids : ∀ {i}, i ∈ ids → s.phase i = .acting := fun hm => hi.acting.2 (hperm.mem_iff.2 (List.mem_append_left _ hm))
  have hnodup := hperm.nodup_iff.1 hi.nodup
  have hwoken : ∀ {i}, i ∈ ids → s'.phase i = .woken := by
    intro i hm
    rw [hphase]
    exact if_pos ⟨hm, hids hm⟩
  have hsame : ∀ {i}, i ∉ ids → s'.phase i = s.phase i := by
    intro i hm
    rw [hphase]
    exact if_neg fun h => hm h.1
  refine ⟨(List.nodup_append.1 hnodup).2.1, ?_, ?_, ?_, ?_, ?_, ?_, ?_, hlow, hac, hcr⟩
  · intro i
    by_cases hm : i ∈ ids
    · rw [hwoken hm]
      refine ⟨nofun, fun h => absurd rfl ((List.nodup_append.1 hnodup).2.2 i hm i h)⟩
    · rw [hsame hm, hi.acting, hperm.mem_iff, List.mem_append]
      exact ⟨fun h => h.resolve_left hm, .inr⟩
  · intro i
    by_cases hm : i ∈ ids
    · rw [hcalls, hwoken hm, hi.calls, hids hm]
      exact ⟨fun _ => ⟨nofun, nofun⟩, fun _ => ⟨nofun, nofun⟩⟩
    · rw [hcalls, hsame hm, hi.calls]
  · intro i h
    by_cases hm : i ∈ ids
    · rw [hwoken hm]
      exact ⟨nofun, nofun, nofun⟩
    · rw [hsame hm]
      exact hi.listed (hlist ▸ h)
  · intro i h
    by_cases hm : i ∈ ids
    · rw [hwoken hm] at h
      exact h.elim nofun nofun
    · rw [hsame hm] at h
      exact hlist ▸ hi.onList h
  · intro i h hh
    by_cases hm : i ∈ ids
    · exact .inl (hwoken hm)
    · rw [hsame hm]
      exact hi.met (hmet ▸ h) (hresetn ▸ hh)
  · intro i h hp
    rw [hresp]
    by_cases hm : i ∈ ids
    · exact (if_pos hm).trans (hr i hm (hmet ▸ h))
    · rw [hsame hm] at hp
      exact (if_neg hm).trans (hi.error (hmet ▸ h) hp)
  · intro i h
    by_cases hm : i ∈ ids
    · rw [hwoken hm]
      nofun
    · rw [hsame hm]
      exact hi.notIdle (hmet ▸ h)

theorem finish_nil (s : State) (r : Tlm.Response) : (s.finish [] r).phase = s.phase ∧ (s.finish [] r).resp = s.resp := by
  simp [State.finish]

/-- A transaction goes from one thread to the next. -/
theorem Inv.pass (hi : Inv s) (hheld : s'.held = s.held) (hphase : s'.phase = s.phase) (hresp : s'.resp = s.resp)
    (hcalls : s'.calls = s.calls) (hlist : s'.overlapList = s.overlapList) (hmet : s'.met = s.met) (hresetn : s'.resetn = s.resetn)
    (hlow : s'.resetn = false → Low s') (hac : s'.acWaits = true → s'.acCur = none) (hcr : s'.crWaits = true → s'.crCur = none) : Inv s' := by
  obtain ⟨hp, hr⟩ := finish_nil s .ok
  exact hi.move [] .ok (by rw [hheld, List.nil_append]) (hphase.trans hp.symm) (hresp.trans hr.symm) hcalls hlist hmet hresetn nofun hlow hac hcr

/-- A `b_transport` that is met by a reset is not done with otherwise. -/
theorem Inv.not_met (hi : Inv s) (hr : s.resetn = true) (hm : id ∈ s.held) : s.met id ≠ true := by
  intro h
  rcases hi.met h hr with hp | hp
  · rw [hi.acting.2 hm] at hp
    cases hp
  · rw [hi.acting.2 hm] at hp
    cases hp

theorem Low.finish (h : Low s) (ids : List ℕ) (r : Tlm.Response) (id : ℕ) :
    (s.finish ids r).phase id ≠ .waiting ∧ (s.finish ids r).phase id ≠ .locking := by
  simp only [State.finish]
  split_ifs
  · exact ⟨nofun, nofun⟩
  · exact h.phase id

theorem Inv.writeCr (hi : Inv s) (hc : s.acCur = some id) (hr : s.resetn = true) : Inv (s.writeCr id) := by
  unfold State.writeCr
  split_ifs
  · refine hi.pass ?_ rfl rfl rfl rfl rfl rfl (fun h => ?_) (fun _ => rfl) hi.crWaits
    · simp [State.held, hc]
    · rw [show s.resetn = false from h] at hr
      cases hr
  · refine hi.pass rfl rfl rfl rfl rfl rfl rfl (fun h => ?_) hi.acWaits hi.crWaits
    rw [show s.resetn = false from h] at hr
    cases hr

theorem Inv.writeCd (hi : Inv s) (hc : s.crCur = some id) (hr : s.resetn = true) : Inv (s.writeCd id) := by
  unfold State.writeCd
  split_ifs
  · refine hi.pass ?_ rfl rfl rfl rfl rfl rfl (fun h => ?_) hi.acWaits fun _ => rfl
    · simp [State.held, hc]
    · rw [show s.resetn = false from h] at hr
      cases hr
  · refine hi.pass rfl rfl rfl rfl rfl rfl rfl (fun h => ?_) hi.acWaits hi.crWaits
    rw [show s.resetn = false from h] at hr
    cases hr

theorem Inv.acTurn (hi : Inv s) (hc : s.acCur = some id) (acready : Bool) : Inv (s.acTurn id acready) := by
  unfold State.acTurn
  split_ifs with hstuck hr
  · refine hi.writeCr hc ?_
    by_contra hr
    rw [(hi.low (by simpa using hr)).acStuck] at hstuck
    cases hstuck
  · have hl := hi.low hr
    refine hi.move [id] .error (List.perm_iff_count.2 fun a => ?_) rfl rfl rfl rfl rfl rfl (fun _ _ _ => rfl) (fun _ => ?_)
      (fun _ => rfl) hi.crWaits
    · simp only [State.held, State.finish, hc, List.count_append, Option.toList_some, Option.toList_none, List.count_nil]
      omega
    · exact ⟨hl.cdCur, hl.cdFifo, hl.crFifo, hl.acFifo, hl.acStuck, hl.crStuck, hl.finish [id] .error⟩
  · exact hi.writeCr hc (by simpa using hr)
  · exact hi

theorem Inv.crTurn (hi : Inv s) (hc : s.crCur = some id) (crvalid errorBit dataTransfer : Bool) :
    Inv (s.crTurn id crvalid errorBit dataTransfer) := by
  have hmem : id ∈ s.held := by simp [State.held, hc]
  -- the transaction leaves the thread, and is done
  have hdone : ∀ {r b}, (s.met id = true → r = .error) → (s.resetn = false ∨ b = s.crWaits) →
      Inv { s.finish [id] r with crCur := none, crWaits := b } := by
    intro r b hr _
    refine hi.move [id] r (List.perm_iff_count.2 fun a => ?_) rfl rfl rfl rfl rfl rfl ?_ (fun h => ?_) hi.acWaits fun _ => rfl
    · simp only [State.held, State.finish, hc, List.count_append, Option.toList_some, Option.toList_none, List.count_nil]
      omega
    · intro i hm hmet
      rw [List.mem_singleton.1 hm] at hmet
      exact hr hmet
    · have hl := hi.low h
      exact ⟨hl.cdCur, hl.cdFifo, hl.crFifo, hl.acFifo, hl.acStuck, hl.crStuck, hl.finish [id] r⟩
  unfold State.crTurn
  split_ifs with hstuck hr
  · refine hi.writeCd hc ?_
    by_contra hr
    rw [(hi.low (by simpa using hr)).crStuck] at hstuck
    cases hstuck
  · exact hdone (fun _ => rfl) (.inl hr)
  · exact hi
  · exact hdone (fun _ => rfl) (.inr rfl)
  · exact hi.writeCd hc (by simpa using hr)
  · exact hdone (fun hmet => absurd hmet (hi.not_met (by simpa using hr) hmem)) (.inr rfl)

/-- `cd_thread` has a transaction, or has it done. -/
theorem Inv.cdLoop {t : State} {pos : ℕ} (hi : Inv s) (hr : s.resetn = true) (hpass : { t with cdCur := some (id, pos) }.held = s.held)
    (hdrop : s.held = id :: { t with cdCur := none }.held) (hphase : t.phase = s.phase) (hresp : t.resp = s.resp) (hcalls : t.calls = s.calls)
    (hlist : t.overlapList = s.overlapList) (hmet : t.met = s.met) (hresetn : t.resetn = s.resetn)
    (hac : t.acWaits = true → t.acCur = none) (hcr : t.crWaits = true → t.crCur = none) : Inv (t.cdLoop id pos) := by
  have hnotlow : t.resetn ≠ false := by
    rw [hresetn, hr]
    nofun
  unfold State.cdLoop
  split_ifs
  · exact hi.pass hpass hphase hresp hcalls hlist hmet hresetn (fun h => absurd h hnotlow) hac hcr
  · refine hi.move [id] .ok (by rw [hdrop]; exact .refl _) ?_ ?_ hcalls hlist hmet hresetn ?_ (fun h => absurd h hnotlow) hac hcr
    · simp only [State.finish, hphase]
    · simp only [State.finish, hresp]
    · intro i hm hmeti
      have hhead : i ∈ s.held := by
        rw [hdrop, List.mem_singleton.1 hm]
        exact List.mem_cons_self
      exact absurd hmeti (hi.not_met hr hhead)

theorem Inv.cdTurn {busWidth pos : ℕ} (hi : Inv s) (hc : s.cdCur = some (id, pos)) (cdvalid : Bool) (cddata : ℕ → Tlm.Byte) :
    Inv (s.cdTurn id busWidth pos cdvalid cddata) := by
  unfold State.cdTurn
  split_ifs with hr
  · rw [(hi.low hr).cdCur] at hc
    cases hc
  · exact hi
  · refine hi.cdLoop (by simpa using hr) ?_ ?_ rfl rfl rfl rfl rfl rfl hi.acWaits hi.crWaits
    · simp [State.held, State.storeBeat, hc]
    · simp [State.held, State.storeBeat, hc]

theorem Inv.reset (hi : Inv s) (hr : s.resetn = true) (hok : Fair s .reset) : Inv s.clear.strike := by
  obtain ⟨hwait, hac, hcr, hcd⟩ := hok
  have hclear : Inv s.clear := by
    refine hi.move (s.cdFifo ++ s.crFifo ++ s.acFifo) .error (List.perm_iff_count.2 fun a => ?_) rfl rfl rfl rfl rfl rfl
      (fun _ _ _ => rfl) (fun h => ?_) hi.acWaits hi.crWaits
    · simp only [State.held, State.clear, State.finish, List.count_append, List.count_nil]
      omega
    · rw [show s.resetn = false from h] at hr
      cases hr
  have hphase : ∀ i, s.clear.phase i ≠ .waiting ∧ s.clear.phase i ≠ .locking := by
    intro i
    by_cases hl : i ∈ s.overlapList
    · simp only [State.clear, State.finish]
      split_ifs
      · exact ⟨nofun, nofun⟩
      · exact hwait i hl
    · exact ⟨fun h => hl (hclear.onList (.inl h)), fun h => hl (hclear.onList (.inr h))⟩
  refine ⟨hclear.nodup, hclear.acting, hclear.calls, hclear.listed, hclear.onList, nofun, ?_, ?_, fun _ => ?_, hclear.acWaits, hclear.crWaits⟩
  · intro i hm hp
    refine hclear.error (((Bool.or_eq_true _ _).mp hm).resolve_right fun h => ?_) hp
    obtain ⟨-, hw, hret⟩ := of_decide_eq_true h
    exact hp.elim hw hret
  · intro i hm
    exact ((Bool.or_eq_true _ _).mp hm).elim hclear.notIdle fun h => (of_decide_eq_true h).1
  · exact ⟨hcd, rfl, rfl, rfl, hac, hcr, hphase⟩

/-- A `b_transport` gets on, on the list. -/
theorem Inv.enter {p : Phase} (hi : Inv s) (hr : s.resetn = true) (hp : s.phase id = .delaying ∨ s.phase id = .waiting ∨ s.phase id = .locking)
    (hnew : p = .waiting ∨ p = .locking ∨ p = .acting) (hheld : s'.held = if p = .acting then s.held ++ [id] else s.held)
    (hphase : s'.phase = Function.update s.phase id p) (hresp : s'.resp = s.resp) (hcalls : s'.calls = s.calls)
    (hlist : ∀ j, j ∈ s'.overlapList ↔ j = id ∨ j ∈ s.overlapList) (hmet : s'.met = s.met) (hresetn : s'.resetn = s.resetn)
    (hac : s'.acWaits = true → s'.acCur = none) (hcr : s'.crWaits = true → s'.crCur = none) : Inv s' := by
  have hself : s'.phase id = p := by rw [hphase, Function.update_self]
  have hother : ∀ {j}, j ≠ id → s'.phase j = s.phase j := by
    intro j hne
    rw [hphase, Function.update_of_ne hne]
  have hout : id ∉ s.held := by
    intro h
    rw [hi.acting.2 h] at hp
    rcases hp with hp | hp | hp <;> cases hp
  have hdone : p ≠ .idle ∧ p ≠ .delaying ∧ p ≠ .woken ∧ p ≠ .returned := by
    rcases hnew with rfl | rfl | rfl <;> exact ⟨nofun, nofun, nofun, nofun⟩
  refine ⟨?_, ?_, ?_, ?_, ?_, ?_, ?_, ?_, ?_, hac, hcr⟩
  · rw [hheld]
    split_ifs
    · exact List.nodup_append.2 ⟨hi.nodup, List.nodup_singleton id, fun a ha b hb hab => hout (by
        rw [← List.mem_singleton.1 hb, ← hab]
        exact ha)⟩
    · exact hi.nodup
  · intro j
    by_cases hj : j = id
    · subst hj
      rw [hself, hheld]
      split_ifs with hact
      · exact ⟨fun _ => by simp, fun _ => hact⟩
      · exact ⟨fun h => absurd h hact, fun h => absurd h hout⟩
    · rw [hother hj, hi.acting, hheld]
      split_ifs
      · simp [hj]
      · exact .rfl
  · intro j
    by_cases hj : j = id
    · subst hj
      rw [hself, hcalls, hi.calls]
      refine ⟨fun _ => ⟨hdone.1, hdone.2.2.2⟩, fun _ => ?_⟩
      rcases hp with hp | hp | hp <;> rw [hp] <;> exact ⟨nofun, nofun⟩
    · rw [hother hj, hcalls, hi.calls]
  · intro j hj
    by_cases hne : j = id
    · subst hne
      rw [hself]
      exact ⟨hdone.1, hdone.2.1, hdone.2.2.2⟩
    · rw [hother hne]
      exact hi.listed (((hlist j).1 hj).resolve_left hne)
  · intro j hj
    by_cases hne : j = id
    · exact (hlist j).2 (.inl hne)
    · rw [hother hne] at hj
      exact (hlist j).2 (.inr (hi.onList hj))
  · intro j hm _
    rw [hmet] at hm
    have hold := hi.met hm hr
    by_cases hne : j = id
    · subst hne
      rcases hp with hp | hp | hp <;> rw [hp] at hold <;> exact hold.elim nofun nofun
    · rw [hother hne]
      exact hold
  · intro j hm hj
    by_cases hne : j = id
    · subst hne
      rw [hself] at hj
      exact (hj.elim hdone.2.2.1 hdone.2.2.2).elim
    · rw [hother hne] at hj
      rw [hresp]
      exact hi.error (hmet ▸ hm) hj
  · intro j hm
    by_cases hne : j = id
    · subst hne
      rw [hself]
      exact hdone.1
    · rw [hother hne]
      exact hi.notIdle (hmet ▸ hm)
  · intro h
    rw [hresetn, hr] at h
    cases h

theorem Inv.goOn {l : List ℕ} {blocked locked : Bool} (hi : Inv s) (hr : s.resetn = true)
    (hp : s.phase id = .delaying ∨ s.phase id = .waiting ∨ s.phase id = .locking) (hl : ∀ j, j ∈ l ↔ j = id ∨ j ∈ s.overlapList) :
    Inv ({ s with overlapList := l }.goOn id blocked locked) := by
  unfold State.goOn
  split_ifs
  · exact hi.enter hr hp (.inl rfl) rfl rfl rfl rfl hl rfl rfl hi.acWaits hi.crWaits
  · exact hi.enter hr hp (.inr (.inl rfl)) rfl rfl rfl rfl hl rfl rfl hi.acWaits hi.crWaits
  · refine hi.enter hr hp (.inr (.inr rfl)) ?_ rfl rfl rfl hl rfl rfl hi.acWaits hi.crWaits
    simp [State.held]

/-- A `b_transport` returns. -/
theorem Inv.leave (hi : Inv s) (hp : s.phase id = .woken ∨ s.phase id = .delaying) (hheld : s'.held = s.held)
    (hphase : s'.phase = Function.update s.phase id .returned) (hresp : ∀ j, s'.resp j = s.resp j ∨ j = id ∧ s'.resp j = .error)
    (herror : s.phase id = .delaying → s'.resp id = .error) (hcalls : s'.calls = s.calls.filter (· ≠ id))
    (hlist : ∀ j, j ∈ s'.overlapList ↔ j ∈ s.overlapList ∧ j ≠ id) (hmet : s'.met = s.met) (hresetn : s'.resetn = s.resetn)
    (hlow : Low s → Low s') (hac : s'.acWaits = true → s'.acCur = none) (hcr : s'.crWaits = true → s'.crCur = none) : Inv s' := by
  have hself : s'.phase id = .returned := by rw [hphase, Function.update_self]
  have hother : ∀ {j}, j ≠ id → s'.phase j = s.phase j := by
    intro j hne
    rw [hphase, Function.update_of_ne hne]
  refine ⟨hheld ▸ hi.nodup, ?_, ?_, ?_, ?_, ?_, ?_, ?_, fun h => hlow (hi.low (hresetn ▸ h)), hac, hcr⟩
  · intro j
    by_cases hj : j = id
    · subst hj
      rw [hself, hheld, ← hi.acting]
      rcases hp with hp | hp <;> rw [hp] <;> exact ⟨nofun, nofun⟩
    · rw [hother hj, hheld, hi.acting]
  · intro j
    rw [hcalls, List.mem_filter, decide_eq_true_iff]
    by_cases hj : j = id
    · subst hj
      rw [hself]
      exact ⟨fun h => absurd rfl h.2, fun h => absurd rfl h.2⟩
    · rw [hother hj, hi.calls]
      exact ⟨fun h => h.1, fun h => ⟨h, hj⟩⟩
  · intro j hj
    obtain ⟨hl, hne⟩ := (hlist j).1 hj
    rw [hother hne]
    exact hi.listed hl
  · intro j hj
    by_cases hne : j = id
    · subst hne
      rw [hself] at hj
      exact hj.elim nofun nofun
    · rw [hother hne] at hj
      exact (hlist j).2 ⟨hi.onList hj, hne⟩
  · intro j hm hh
    by_cases hne : j = id
    · subst hne
      exact .inr hself
    · rw [hother hne]
      exact hi.met (hmet ▸ hm) (hresetn ▸ hh)
  · intro j hm hj
    by_cases hne : j = id
    · subst hne
      rcases hp with hp | hp
      · rcases hresp j with hsame | ⟨-, herr⟩
        · rw [hsame]
          exact hi.error (hmet ▸ hm) (.inl hp)
        · exact herr
      · exact herror hp
    · rw [hother hne] at hj
      rw [(hresp j).resolve_right fun h => hne h.1]
      exact hi.error (hmet ▸ hm) hj
  · intro j hm
    by_cases hne : j = id
    · subst hne
      rw [hself]
      nofun
    · rw [hother hne]
      exact hi.notIdle (hmet ▸ hm)

theorem Inv.fail (hi : Inv s) (hp : s.phase id = .delaying) : Inv (s.fail id) := by
  refine hi.leave (.inr hp) rfl rfl (fun j => ?_) (fun _ => Function.update_self _ _ _) rfl (fun j => ?_) rfl rfl (fun h => ?_) hi.acWaits hi.crWaits
  · by_cases hj : j = id
    · subst hj
      exact .inr ⟨rfl, Function.update_self _ _ _⟩
    · exact .inl (Function.update_of_ne hj _ _)
  · refine ⟨fun h => ⟨h, ?_⟩, fun h => h.1⟩
    rintro rfl
    exact (hi.listed h).2.1 hp
  · refine ⟨h.cdCur, h.cdFifo, h.crFifo, h.acFifo, h.acStuck, h.crStuck, fun j => ?_⟩
    by_cases hj : j = id
    · subst hj
      rw [show (s.fail j).phase j = .returned from Function.update_self _ _ _]
      exact ⟨nofun, nofun⟩
    · rw [show (s.fail id).phase j = s.phase j from Function.update_of_ne hj _ _]
      exact h.phase j

theorem Inv.wake (hi : Inv s) (hp : s.phase id = .woken) : Inv { s.leave id with overlapList := s.overlapList.filter (· ≠ id) } := by
  refine hi.leave (.inl hp) rfl rfl (fun _ => .inl rfl) ?_ rfl (fun j => ?_) rfl rfl (fun h => ?_) hi.acWaits hi.crWaits
  · rw [hp]
    nofun
  · simp only [List.mem_filter, decide_eq_true_iff]
  · refine ⟨h.cdCur, h.cdFifo, h.crFifo, h.acFifo, h.acStuck, h.crStuck, fun j => ?_⟩
    by_cases hj : j = id
    · subst hj
      rw [show (s.leave j).phase j = .returned from Function.update_self _ _ _]
      exact ⟨nofun, nofun⟩
    · rw [show (s.leave id).phase j = s.phase j from Function.update_of_ne hj _ _]
      exact h.phase j

theorem Inv.turn {blocked locked : Bool} (hi : Inv s) (h : s.turn id blocked locked = some s') : Inv s' := by
  have hsame : ∀ {b k}, s.resetn = true → s.phase id = .waiting ∨ s.phase id = .locking → Inv (s.goOn id b k) := by
    intro b k hr hp
    refine hi.goOn hr (.inr hp) (l := s.overlapList) fun j => ⟨.inr, ?_⟩
    rintro (rfl | hj)
    · exact hi.onList hp
    · exact hj
  unfold State.turn at h
  split at h
  next hp =>
    split_ifs at h with hr
    · cases h
      exact hi.fail hp
    · cases h
      refine hi.goOn (by simpa using hr) (.inl hp) fun j => ?_
      rw [List.mem_append, List.mem_singleton, or_comm]
  next hp =>
    split_ifs at h with hr
    · exact absurd hp ((hi.low hr).phase id).1
    · cases h
      exact hsame (by simpa using hr) (.inl hp)
  next hp =>
    cases h
    refine hsame ?_ (.inr hp)
    by_contra hr
    exact ((hi.low (by simpa using hr)).phase id).2 hp
  next hp =>
    cases h
    exact hi.wake hp
  · cases h

theorem Inv.call {busWidth len : ℕ} (hi : Inv s) (h : step busWidth s (.call id len) = some s') : Inv s' := by
  simp only [SnoopSlave.step] at h
  split_ifs at h with hp
  cases h
  have hcall : id ∉ s.calls := by
    rw [hi.calls]
    exact fun h => hp.elim h.1 h.2
  have hout : id ∉ s.held := by
    rw [← hi.acting]
    intro h
    rw [h] at hp
    exact hp.elim nofun nofun
  have hlist : id ∉ s.overlapList := fun h => hp.elim (hi.listed h).1 (hi.listed h).2.2
  have hself : Function.update s.phase id Phase.delaying id = .delaying := Function.update_self _ _ _
  have hother : ∀ {j}, j ≠ id → Function.update s.phase id Phase.delaying j = s.phase j := fun hne => Function.update_of_ne hne _ _
  refine ⟨hi.nodup, ?_, ?_, ?_, ?_, ?_, ?_, ?_, ?_, hi.acWaits, hi.crWaits⟩
  · intro j
    simp only
    by_cases hj : j = id
    · subst hj
      rw [hself]
      exact ⟨nofun, fun h => absurd h hout⟩
    · rw [hother hj]
      exact hi.acting
  · intro j
    simp only [List.mem_append, List.mem_singleton]
    by_cases hj : j = id
    · subst hj
      rw [hself]
      exact ⟨fun _ => ⟨nofun, nofun⟩, fun _ => .inr rfl⟩
    · rw [hother hj, hi.calls]
      exact ⟨fun h => h.resolve_right hj, .inl⟩
  · intro j hj
    have hne : j ≠ id := fun h => hlist (h ▸ hj)
    simp only [hother hne]
    exact hi.listed hj
  · intro j hj
    have hne : j ≠ id := by
      rintro rfl
      simp only [hself] at hj
      exact hj.elim nofun nofun
    simp only [hother hne] at hj
    exact hi.onList hj
  · intro j hm hr
    have hne : j ≠ id := by
      rintro rfl
      simp at hm
    simp only [hother hne]
    simp only [Function.update_of_ne hne] at hm
    exact hi.met hm hr
  · intro j hm hj
    have hne : j ≠ id := by
      rintro rfl
      simp at hm
    simp only [hother hne] at hj
    simp only [Function.update_of_ne hne] at hm ⊢
    exact hi.error hm hj
  · intro j hm
    have hne : j ≠ id := by
      rintro rfl
      simp at hm
    simp only [hother hne]
    simp only [Function.update_of_ne hne] at hm
    exact hi.notIdle hm
  · intro hr
    have hl := hi.low hr
    refine ⟨hl.cdCur, hl.cdFifo, hl.crFifo, hl.acFifo, hl.acStuck, hl.crStuck, fun j => ?_⟩
    simp only
    by_cases hj : j = id
    · subst hj
      rw [hself]
      exact ⟨nofun, nofun⟩
    · rw [hother hj]
      exact hl.phase j

/-- What a reset has met is done with, once it has woken and run. -/
theorem Inv.release (hi : Inv s) (hr : s.resetn = false) (hset : s.settled = true) : Inv { s with resetn := true } := by
  have hl := hi.low hr
  simp only [State.settled, Bool.and_eq_true, hl.acStuck, hl.crStuck, Bool.or_false, Option.isNone_iff_eq_none] at hset
  obtain ⟨⟨⟨hac, hcr⟩, -⟩, hall⟩ := hset
  have hempty : s.held = [] := by simp [State.held, hl.cdCur, hl.cdFifo, hl.crFifo, hl.acFifo, hac, hcr]
  refine ⟨hi.nodup, hi.acting, hi.calls, hi.listed, hi.onList, fun {j} hm _ => ?_, hi.error, hi.notIdle, nofun, hi.acWaits, hi.crWaits⟩
  have hnot : s.phase j ≠ .acting := by
    rw [Ne, hi.acting, hempty]
    exact List.not_mem_nil
  have hidle := hi.notIdle hm
  by_contra hp
  obtain ⟨hw, hret⟩ := not_or.1 hp
  have hmet := of_decide_eq_true (List.all_eq_true.1 hall j (hi.calls.2 ⟨hidle, hret⟩)) hm
  cases hj : s.phase j with
  | idle => exact hidle hj
  | delaying => exact hmet.1 hj
  | waiting => exact hmet.2.1 hj
  | locking => exact hmet.2.2 hj
  | acting => exact hnot hj
  | woken => exact hw hj
  | returned => exact hret hj

/-- **A step keeps what a reset is recovered by.** -/
theorem Inv.step {busWidth : ℕ} {e : Event} (hi : Inv s) (hok : Fair s e) (h : step busWidth s e = some s') : Inv s' := by
  cases e with
  | call id len => exact hi.call h
  | turn id blocked locked => exact hi.turn h
  | acTake =>
    simp only [SnoopSlave.step] at h
    split at h
    next id rest hc hf =>
      split_ifs at h with hw
      cases h
      refine hi.pass ?_ rfl rfl rfl rfl rfl rfl (fun hr => ?_) (fun h => ?_) hi.crWaits
      · simp [State.held, hc, hf]
      · have hempty := (hi.low hr).acFifo
        rw [hf] at hempty
        cases hempty
      · rw [show s.acWaits = true from h] at hw
        cases hw
    · cases h
  | acTurn acready =>
    obtain ⟨id, hc, rfl⟩ := Option.map_eq_some_iff.1 h
    exact hi.acTurn hc acready
  | crTake =>
    simp only [SnoopSlave.step] at h
    split at h
    next id rest hc hf =>
      split_ifs at h with hw
      cases h
      refine hi.pass ?_ rfl rfl rfl rfl rfl rfl (fun hr => ?_) hi.acWaits fun h => ?_
      · simp [State.held, hc, hf]
      · have hempty := (hi.low hr).crFifo
        rw [hf] at hempty
        cases hempty
      · rw [show s.crWaits = true from h] at hw
        cases hw
    · cases h
  | crTurn crvalid errorBit dataTransfer =>
    obtain ⟨id, hc, rfl⟩ := Option.map_eq_some_iff.1 h
    exact hi.crTurn hc crvalid errorBit dataTransfer
  | cdTake =>
    simp only [SnoopSlave.step] at h
    split at h
    next id rest hc hf =>
      split_ifs at h
      cases h
      have hr : s.resetn = true := by
        by_contra hr
        rw [(hi.low (by simpa using hr)).cdFifo] at hf
        cases hf
      refine hi.cdLoop hr ?_ ?_ rfl rfl rfl rfl rfl rfl hi.acWaits hi.crWaits
      · simp [State.held, hc, hf]
      · simp [State.held, hc, hf]
    · cases h
  | cdTurn cdvalid cddata =>
    simp only [SnoopSlave.step] at h
    split at h
    next id pos hc =>
      split_ifs at h
      cases h
      exact hi.cdTurn hc cdvalid cddata
    · cases h
  | reset =>
    simp only [SnoopSlave.step] at h
    split_ifs at h with hr
    cases h
    exact hi.reset hr hok
  | release =>
    simp only [SnoopSlave.step] at h
    split_ifs at h with hset
    cases h
    exact hi.release hset.1 hset.2
  | awake t =>
    cases t <;> simp only [SnoopSlave.step] at h <;> split_ifs at h with hr <;> cases h
    · exact hi.pass rfl rfl rfl rfl rfl rfl rfl (fun hl => absurd hr (by rw [show s.resetn = false from hl]; nofun)) nofun hi.crWaits
    · exact hi.pass rfl rfl rfl rfl rfl rfl rfl (fun hl => absurd hr (by rw [show s.resetn = false from hl]; nofun)) hi.acWaits nofun
    · exact hi.pass rfl rfl rfl rfl rfl rfl rfl (fun hl => absurd hr (by rw [show s.resetn = false from hl]; nofun)) hi.acWaits hi.crWaits

/-! ### What follows -/

theorem Inv.returns_woken (busWidth : ℕ) (hi : Inv s) (hm : s.met id = true) (hp : s.phase id = .woken) :
    ∃ s', SnoopSlave.step busWidth s (.turn id false false) = some s' ∧ s'.phase id = .returned ∧ s'.resp id = .error := by
  refine ⟨{ s.leave id with overlapList := s.overlapList.filter (· ≠ id) }, ?_, Function.update_self _ _ _, hi.error hm (.inl hp)⟩
  simp only [SnoopSlave.step, State.turn, hp]

/-- A thread aborts a transaction, and its `b_transport` wakes. -/
theorem returns_aborted {busWidth : ℕ} {e : Event} (hm : s.met id = true) (hs : SnoopSlave.step busWidth s e = some s') (hi' : Inv s')
    (hmet : s'.met = s.met) (hp : s'.phase id = .woken) :
    ∃ es u, run (SnoopSlave.step busWidth) s es = some u ∧ u.phase id = .returned ∧ u.resp id = .error := by
  obtain ⟨u, hu, hret⟩ := hi'.returns_woken busWidth (hmet ▸ hm) hp
  exact ⟨[e, .turn id false false], u, by simp [run, hs, hu], hret⟩

theorem Inv.returns {busWidth : ℕ} (hi : Inv s) (hid : id ∈ s.calls) (hm : s.met id = true) :
    ∃ es u, run (SnoopSlave.step busWidth) s es = some u ∧ u.phase id = .returned ∧ u.resp id = .error := by
  have hnow : s.phase id = .woken → ∃ es u, run (SnoopSlave.step busWidth) s es = some u ∧ u.phase id = .returned ∧ u.resp id = .error := by
    intro hp
    obtain ⟨u, hu, hret⟩ := hi.returns_woken busWidth hm hp
    exact ⟨[.turn id false false], u, by simp [run, hu], hret⟩
  obtain ⟨hidle, hret⟩ := hi.calls.1 hid
  cases hr : s.resetn with
  | true => exact hnow ((hi.met hm hr).resolve_right hret)
  | false =>
    have hl := hi.low hr
    cases hp : s.phase id with
    | idle => exact absurd hp hidle
    | returned => exact absurd hp hret
    | woken => exact hnow hp
    | waiting => exact absurd hp (hl.phase id).1
    | locking => exact absurd hp (hl.phase id).2
    | delaying =>
      refine ⟨[.turn id false false], s.fail id, ?_, Function.update_self _ _ _, Function.update_self _ _ _⟩
      simp [run, SnoopSlave.step, State.turn, hp, hr]
    | acting =>
      have hheld := hi.acting.1 hp
      simp only [State.held, hl.cdCur, hl.cdFifo, hl.crFifo, hl.acFifo, Option.map_none, Option.toList_none, List.nil_append, List.append_nil,
        List.mem_append, Option.mem_toList] at hheld
      rcases hheld with hc | hc
      · have hstep : SnoopSlave.step busWidth s (.crTurn false false false) = some (s.crTurn id false false false) := by
          simp [SnoopSlave.step, hc]
        refine returns_aborted hm hstep (hi.crTurn hc _ _ _) ?_ ?_ <;> simp [State.crTurn, State.finish, hl.crStuck, hr, hp]
      · have hstep : SnoopSlave.step busWidth s (.acTurn false) = some (s.acTurn id false) := by
          simp [SnoopSlave.step, hc]
        refine returns_aborted hm hstep (hi.acTurn hc _) ?_ ?_ <;> simp [State.acTurn, State.finish, hl.acStuck, hr, hp]

theorem data_cdLoop {pos j : ℕ} : (s.cdLoop id pos).data j = s.data j := by
  unfold State.cdLoop
  split_ifs <;> rfl

/-- A beat is stored for the transaction of `cd_thread` only. -/
theorem Inv.stored {busWidth : ℕ} {cdvalid : Bool} {cddata : ℕ → Tlm.Byte} {j : ℕ} (hi : Inv s)
    (h : SnoopSlave.step busWidth s (.cdTurn cdvalid cddata) = some s') (hj : s.phase j ≠ .acting) : s'.data j = s.data j := by
  simp only [SnoopSlave.step] at h
  split at h
  next id pos hc =>
    split_ifs at h
    cases h
    have hne : j ≠ id := by
      rintro rfl
      refine hj (hi.acting.2 ?_)
      simp [State.held, hc]
    unfold State.cdTurn
    split_ifs
    · rfl
    · rfl
    · rw [data_cdLoop]
      exact Function.update_of_ne hne _ _
  · cases h

theorem right_of_inv {busWidth : ℕ} (hi : Inv s) : Right busWidth s where
  listed _ hid := hi.calls.2 ⟨(hi.listed hid).1, (hi.listed hid).2.2⟩
  error _ hm hp := hi.error hm (.inr hp)
  returns _ hid hm := hi.returns hid hm
  stored _ _ _ h _ hj := hi.stored h hj

theorem inv_of_run {busWidth : ℕ} (h : Reach (step busWidth) Fair {} s) : Inv s := h.invariant inv_init fun hi hok hs => hi.step hok hs

end LibSystemCTLM.Ace.SnoopSlave
