import LibSystemCTLM.Foundation.Runs
import LibSystemCTLM.Tlm.Payload

/-!
# The exclusive monitor (`tlm-exmon.h`)

`tlm_exclusive_monitor` sits between initiators and a target. It keeps a list of monitors, one
for each masked id, that exclusive reads set and writes clear; an exclusive write is forwarded
only when its id monitors its location.

## The model

`b_transport` of the target may wait, so calls of the monitor's own `b_transport` overlap: `call`
is what it does before the transaction is forwarded, `ret` the target's answer and what is done
after it. The target is any function of its state and the transaction; `log` has the transactions
in the order they were forwarded in and is read by no step.

## Results

What the monitor is for is `Atomic`: an exclusive write is forwarded exactly when its id holds a
reservation of the location that no write forwarded since the exclusive read has touched.
`has_location` looks at where a write starts and at nothing else, so a write from below the
location that runs into it clears no monitor (`not_atomic`). `Atomic` holds in every state of
every run in which each write that is forwarded starts inside of the monitored locations it
touches, and touches none an exclusive read is still on its way to (`atomic_of_reach`).
-/

namespace LibSystemCTLM.Tlm.Exmon

open Foundation

/-- A payload with the fields of its `genattr_extension` that are read, if it has one. -/
structure Genattr where
  exclusive : Bool := false
  exclusiveHandled : Bool := false
  transactionId : BitVec 32 := 0
  deriving DecidableEq, Repr

/-- A payload and its extension. -/
structure Trans extends GenericPayload where
  genattr : Option Genattr := none

/-- `is_exclusive`. -/
def Trans.isExclusive (trans : Trans) : Bool := trans.genattr.any Genattr.exclusive

/-- `set_exclusive_handled`: the setter of the attribute is called without a value, and its default is `false`. -/
def Trans.setExclusiveHandled (trans : Trans) : Trans :=
  { trans with genattr := trans.genattr.map fun g => { g with exclusiveHandled := false } }

/-- `Transaction`: what is kept of an exclusive read. -/
structure Transaction where
  address : Addr
  dataLength : ℕ
  transactionId : BitVec 32
  deriving DecidableEq, Repr

namespace Transaction

/-- The constructor. -/
def mk' (gp : Trans) : Transaction := ⟨gp.address, gp.dataLength, (gp.genattr.getD {}).transactionId⟩

variable (t : Transaction) (idMask : BitVec 32)

/-- `has_location`. -/
def hasLocation (gp : Trans) : Bool :=
  decide (t.address ≤ gp.address) && decide (gp.address < t.address + BitVec.ofNat 64 t.dataLength)

/-- `has_same_location`. -/
def hasSameLocation (gp : Trans) : Bool := decide (t.address = gp.address) && decide (t.dataLength = gp.dataLength)

/-- `get_masked_id`. -/
def maskedId : BitVec 32 := t.transactionId &&& idMask

/-- `has_masked_id`. -/
def hasMaskedId (gp : Trans) : Bool := gp.genattr.any fun g => decide (t.maskedId idMask = g.transactionId &&& idMask)

end Transaction

/-! ### The list of monitors -/

/-- `is_monitored_location`. -/
def isMonitoredLocation (idMask : BitVec 32) (monitor : List Transaction) (trans : Trans) : Bool :=
  monitor.any fun t => t.hasMaskedId idMask trans && t.hasSameLocation trans

/-- `monitor_clear_locations`. -/
def monitorClearLocations (monitor : List Transaction) (trans : Trans) : List Transaction :=
  monitor.filter fun t => !t.hasLocation trans

/-- `monitor_clear_id`: the first monitor of the id goes. -/
def monitorClearId (idMask maskedId : BitVec 32) (monitor : List Transaction) : List Transaction :=
  monitor.eraseP fun t => decide (t.maskedId idMask = maskedId)

/-- `monitor_location`. -/
def monitorLocation (idMask : BitVec 32) (monitor : List Transaction) (trans : Trans) : List Transaction :=
  monitorClearId idMask ((Transaction.mk' trans).maskedId idMask) monitor ++ [Transaction.mk' trans]

/-! ### Runs -/

variable {μ : Type*}

/-- The monitor, the calls that wait for the target, the payloads handed back, newest first, and the target. -/
structure State (μ : Type*) where
  monitor : List Transaction := []
  inFlight : List Trans := []
  returned : List Trans := []
  log : List Trans := []
  mem : μ

/-- A call arrives, or the target answers the `k`-th call that waits for it. -/
inductive Action where
  | call (trans : Trans)
  | ret (k : ℕ)

namespace State

variable (idMask : BitVec 32) (s : State μ)

/-- The call is passed on to the target. -/
def forward (trans : Trans) : State μ := { s with inFlight := s.inFlight ++ [trans], log := s.log ++ [trans] }

/-- `b_transport` up to the call of the target's. -/
def call (trans : Trans) : State μ :=
  if trans.isWrite then
    if trans.isExclusive then
      let trans := trans.setExclusiveHandled
      if isMonitoredLocation idMask s.monitor trans then
        { s with monitor := monitorClearLocations s.monitor trans }.forward trans
      else { s with returned := { trans with response := .ok } :: s.returned }
    else { s with monitor := monitorClearLocations s.monitor trans }.forward trans
  else s.forward trans

/-- `b_transport` after the target's has returned. -/
def finish (trans : Trans) : State μ :=
  if trans.isRead && trans.isExclusive && decide (trans.response = .ok) then
    { s with monitor := monitorLocation idMask s.monitor trans, returned := trans.setExclusiveHandled :: s.returned }
  else { s with returned := trans :: s.returned }

/-- The target's `b_transport`: its next state, the data it puts into the buffer, and its response. -/
abbrev Target (μ : Type*) := μ → Trans → μ × (ℕ → Byte) × Response

/-- One step; it is not enabled when no such call waits. -/
def step (target : Target μ) (s : State μ) : Action → Option (State μ)
  | .call w => some (s.call idMask w)
  | .ret k =>
    match s.inFlight[k]? with
    | none => none
    | some w =>
      let answer := target s.mem w
      some ({ s with inFlight := s.inFlight.eraseIdx k, mem := answer.1 }.finish idMask
        { w with data := answer.2.1, response := answer.2.2 })

/-- No monitor, and nothing on its way. -/
def init (mem : μ) : State μ := { mem }

/-! ### What the monitor is for -/

/-- An exclusive read was forwarded, and no write forwarded after it touches what it read. -/
def ReadIn (log : List Trans) (t : Transaction) : Prop :=
  ∃ pre r post, log = pre ++ r :: post ∧ r.isRead = true ∧ r.isExclusive = true ∧ Transaction.mk' r = t ∧
    ∀ x ∈ post, x.isWrite = true → ¬ x.Touches t.address t.dataLength

/-- The id of a write holds a monitor of its location, and the location is as the exclusive read found it. -/
def Reserved (w : Trans) : Prop :=
  ∃ t ∈ s.monitor, t.hasMaskedId idMask w = true ∧ t.hasSameLocation w = true ∧ ReadIn s.log t

/-- An exclusive write is forwarded exactly when it is `Reserved`; otherwise the initiator gets its
answer, and nothing else happens. -/
def Atomic : Prop :=
  ∀ w : Trans, w.isWrite = true → w.isExclusive = true →
    ((s.call idMask w).log = s.log ++ [w.setExclusiveHandled] ↔ s.Reserved idMask w) ∧
    (¬ s.Reserved idMask w → s.call idMask w = { s with returned := { w.setExclusiveHandled with response := .ok } :: s.returned })

/-- The write starts at a byte of the location, which does not wrap around the address space. -/
def StartsIn (w : Trans) (t : Transaction) : Prop :=
  t.address ≤ w.address ∧ w.address < t.address + BitVec.ofNat 64 t.dataLength

instance (w : Trans) (t : Transaction) : Decidable (StartsIn w t) := inferInstanceAs (Decidable (_ ∧ _))

/-- A write that is passed on starts inside of each monitored location it touches, and touches no
location that an exclusive read is on its way to. -/
def WriteOk (s : State μ) : Action → Prop
  | .call w =>
    w.isWrite = true → (w.isExclusive = true → isMonitoredLocation idMask s.monitor w = true) →
      (∀ t ∈ s.monitor, w.Touches t.address t.dataLength → StartsIn w t) ∧
      ∀ r ∈ s.inFlight, r.isRead = true → r.isExclusive = true → ¬ w.Touches r.address r.dataLength
  | .ret _ => True

instance (s : State μ) (a : Action) : Decidable (WriteOk idMask s a) := by
  cases a <;> simp only [WriteOk] <;> infer_instance

end State

/-! ### Small facts -/

@[simp] theorem isExclusive_setExclusiveHandled (trans : Trans) : trans.setExclusiveHandled.isExclusive = trans.isExclusive := by
  cases h : trans.genattr <;> simp [Trans.isExclusive, Trans.setExclusiveHandled, h]

@[simp] theorem toGenericPayload_setExclusiveHandled (trans : Trans) :
    trans.setExclusiveHandled.toGenericPayload = trans.toGenericPayload := rfl

@[simp] theorem mk'_setExclusiveHandled (trans : Trans) : Transaction.mk' trans.setExclusiveHandled = Transaction.mk' trans := by
  cases h : trans.genattr <;> simp [Transaction.mk', Trans.setExclusiveHandled, h]

@[simp] theorem hasMaskedId_setExclusiveHandled (t : Transaction) (idMask : BitVec 32) (trans : Trans) :
    t.hasMaskedId idMask trans.setExclusiveHandled = t.hasMaskedId idMask trans := by
  cases h : trans.genattr <;> simp [Transaction.hasMaskedId, Trans.setExclusiveHandled, h]

@[simp] theorem hasSameLocation_setExclusiveHandled (t : Transaction) (trans : Trans) :
    t.hasSameLocation trans.setExclusiveHandled = t.hasSameLocation trans := rfl

@[simp] theorem isMonitoredLocation_setExclusiveHandled (idMask : BitVec 32) (monitor : List Transaction) (trans : Trans) :
    isMonitoredLocation idMask monitor trans.setExclusiveHandled = isMonitoredLocation idMask monitor trans := by
  simp [isMonitoredLocation]

/-- `has_location` says where the write starts. -/
theorem hasLocation_iff (t : Transaction) (w : Trans) : t.hasLocation w = true ↔ State.StartsIn w t := by
  simp [Transaction.hasLocation, State.StartsIn]

theorem mem_monitorClearLocations {t : Transaction} {monitor : List Transaction} {w : Trans} :
    t ∈ monitorClearLocations monitor w ↔ t ∈ monitor ∧ ¬ State.StartsIn w t := by
  simp [monitorClearLocations, ← hasLocation_iff]

/-- What `monitor_location` leaves: the monitors there were, and the new one. -/
theorem mem_of_mem_monitorLocation {t : Transaction} {idMask : BitVec 32} {monitor : List Transaction} {trans : Trans}
    (h : t ∈ monitorLocation idMask monitor trans) : t ∈ monitor ∨ t = Transaction.mk' trans := by
  rcases List.mem_append.1 h with h | h
  · exact .inl (List.mem_of_mem_eraseP h)
  · exact .inr (List.mem_singleton.1 h)

namespace State

variable {idMask : BitVec 32} {s s' : State μ} {target : Target μ} {t : Transaction} {log : List Trans} {w : Trans}

/-! ### The invariant -/

/-- One more forwarded transaction: only a write to the location ends the reservation. -/
theorem ReadIn.append (h : ReadIn log t) (hw : w.isWrite = true → ¬ w.Touches t.address t.dataLength) :
    ReadIn (log ++ [w]) t := by
  obtain ⟨pre, r, post, rfl, hr, hx, ht, hpost⟩ := h
  refine ⟨pre, r, post ++ [w], by simp, hr, hx, ht, fun x hmem => ?_⟩
  rcases List.mem_append.1 hmem with hmem | hmem
  · exact hpost x hmem
  · exact List.mem_singleton.1 hmem ▸ hw

/-- An exclusive read that has just been forwarded. -/
theorem readIn_append_self (hr : w.isRead = true) (hx : w.isExclusive = true) :
    ReadIn (log ++ [w]) (Transaction.mk' w) :=
  ⟨log, w, [], rfl, hr, hx, rfl, by simp⟩

/-- What is monitored, and what exclusive reads on their way will monitor, is as it was read. -/
structure Inv (s : State μ) : Prop where
  monitored : ∀ t ∈ s.monitor, ReadIn s.log t
  reading : ∀ r ∈ s.inFlight, r.isRead = true → r.isExclusive = true → ReadIn s.log (Transaction.mk' r)

theorem inv_init (mem : μ) : Inv (init mem) := ⟨by simp [init], by simp [init]⟩

/-- A write that is passed on ends no reservation that it leaves monitored or on its way. -/
theorem Inv.forward_write (h : Inv s) (hw : w.isWrite = true)
    (hmon : ∀ t ∈ s.monitor, w.Touches t.address t.dataLength → StartsIn w t)
    (hread : ∀ r ∈ s.inFlight, r.isRead = true → r.isExclusive = true → ¬ w.Touches r.address r.dataLength) :
    Inv ({ s with monitor := monitorClearLocations s.monitor w }.forward w) := by
  constructor
  · intro t ht
    obtain ⟨ht, hstart⟩ := mem_monitorClearLocations.1 ht
    exact (h.monitored t ht).append fun _ htouch => hstart (hmon t ht htouch)
  · intro r hr hread' hx
    rcases List.mem_append.1 hr with hr | hr
    · exact (h.reading r hr hread' hx).append fun _ => hread r hr hread' hx
    · -- the write itself is no read
      obtain rfl := List.mem_singleton.1 hr
      simp_all [GenericPayload.isRead, GenericPayload.isWrite]

/-- Anything but a write may be passed on. -/
theorem Inv.forward (h : Inv s) (hw : w.isWrite = false) : Inv (s.forward w) := by
  constructor
  · exact fun t ht => (h.monitored t ht).append (by simp [hw])
  · intro r hr hread hx
    rcases List.mem_append.1 hr with hr | hr
    · exact (h.reading r hr hread hx).append (by simp [hw])
    · obtain rfl := List.mem_singleton.1 hr
      exact readIn_append_self hread hx

theorem Inv.call (h : Inv s) (hok : WriteOk idMask s (.call w)) : Inv (s.call idMask w) := by
  by_cases hw : w.isWrite = true
  · by_cases hx : w.isExclusive = true
    · by_cases hm : isMonitoredLocation idMask s.monitor w = true
      · obtain ⟨hmon, hread⟩ := hok hw fun _ => hm
        simpa [State.call, hw, hx, hm] using h.forward_write (w := w.setExclusiveHandled) hw hmon hread
      · simpa [State.call, hw, hx, hm] using ⟨h.monitored, h.reading⟩
    · obtain ⟨hmon, hread⟩ := hok hw fun hx' => absurd hx' hx
      simpa [State.call, hw, hx] using h.forward_write hw hmon hread
  · simpa [State.call, hw] using h.forward (by simpa using hw)

/-- The target's answer: a monitor that is set is that of an exclusive read that was on its way. -/
theorem Inv.finish (h : Inv s) {k : ℕ} (hk : s.inFlight[k]? = some w) (mem : μ) (data : ℕ → Byte) (response : Response) :
    Inv ({ s with inFlight := s.inFlight.eraseIdx k, mem }.finish idMask { w with data, response }) := by
  have hreading : ∀ r ∈ s.inFlight.eraseIdx k, r.isRead = true → r.isExclusive = true → ReadIn s.log (Transaction.mk' r) :=
    fun r hr => h.reading r (List.mem_of_mem_eraseIdx hr)
  unfold State.finish
  split
  · rename_i hset
    simp only [Bool.and_eq_true] at hset
    refine ⟨fun t ht => ?_, hreading⟩
    rcases mem_of_mem_monitorLocation ht with ht | rfl
    · exact h.monitored t ht
    · exact h.reading w (List.mem_of_getElem? hk) hset.1.1 hset.1.2
  · exact ⟨h.monitored, hreading⟩

theorem Inv.step (h : Inv s) {a : Action} (hok : WriteOk idMask s a) (hs : step idMask target s a = some s') : Inv s' := by
  cases a with
  | call w =>
    obtain rfl := Option.some.inj hs
    exact h.call hok
  | ret k =>
    simp only [State.step] at hs
    split at hs
    · cases hs
    · rename_i w hk
      obtain rfl := Option.some.inj hs
      exact h.finish hk _ _ _

/-! ### Atomicity -/

/-- A monitored location is a reservation, while what is monitored is as it was read. -/
theorem Inv.reserved_iff (h : Inv s) : s.Reserved idMask w ↔ isMonitoredLocation idMask s.monitor w = true := by
  simp only [Reserved, isMonitoredLocation, List.any_eq_true, Bool.and_eq_true]
  constructor
  · rintro ⟨t, ht, hid, hloc, -⟩
    exact ⟨t, ht, hid, hloc⟩
  · rintro ⟨t, ht, hid, hloc⟩
    exact ⟨t, ht, hid, hloc, h.monitored t ht⟩

theorem Inv.atomic (h : Inv s) : s.Atomic idMask := by
  intro w hw hx
  rw [h.reserved_iff]
  by_cases hm : isMonitoredLocation idMask s.monitor w = true
  · exact ⟨by simp [State.call, State.forward, hw, hx, hm], fun hn => absurd hm hn⟩
  · exact ⟨by simp [State.call, hw, hx, hm], fun _ => by simp [State.call, hw, hx, hm]⟩

/-- **Exclusive writes are atomic.** In every run in which each write that is passed on starts inside
of the monitored locations it touches, and touches no location an exclusive read is on its way to,
an exclusive write is forwarded exactly when its id holds a reservation of its location. -/
theorem atomic_of_reach {mem : μ} (h : Reach (State.step idMask target) (WriteOk idMask) (init mem) s) : s.Atomic idMask :=
  (h.invariant (inv_init mem) fun hi hok hs => hi.step hok hs).atomic

/-- An exclusive access of a master to four bytes at `0x10`. -/
def exclusiveAccess (command : Command) : Trans :=
  { command, address := 0x10, dataLength := 4, streamingWidth := 4, genattr := some { exclusive := true, transactionId := 1 } }

/-- A write of four bytes from `0xe`, two bytes below the location and two of its bytes. -/
def writeFromBelow : Trans := { command := .write, address := 0xe, dataLength := 4, streamingWidth := 4 }

/-- A target that answers at once. -/
def okTarget : Target Unit := fun _ trans => ((), trans.data, .ok)

/-- A location is monitored, and the exclusive write to it is passed on and clears the monitor. -/
theorem atomic_of_exclusiveAccess :
    ∃ s, run (State.step 0xf okTarget) (init ())
      [.call (exclusiveAccess .read), .ret 0, .call (exclusiveAccess .write), .ret 0] = some s ∧ s.Atomic 0xf := by
  have hok : RunOk (State.step 0xf okTarget) (WriteOk 0xf) (init ())
      [.call (exclusiveAccess .read), .ret 0, .call (exclusiveAccess .write), .ret 0] := by decide
  exact ⟨_, rfl, atomic_of_reach (Reach.refl.of_run hok rfl)⟩

/-- A write from below the location clears no monitor, and the exclusive write that follows is forwarded. -/
theorem not_atomic : ¬ ∀ s, Reach (State.step 0xf okTarget) anyStep (init ()) s → s.Atomic 0xf := by
  intro h
  have hrun : run (State.step 0xf okTarget) (init ())
    [.call (exclusiveAccess .read), .ret 0, .call writeFromBelow] = some _ := rfl
  obtain ⟨t, -, -, -, pre, r, post, hlog, hr, -, rfl, hpost⟩ :=
    (h _ (reach_of_run hrun) (exclusiveAccess .write) rfl rfl).1.1 rfl
  replace hlog : [exclusiveAccess .read, writeFromBelow] = pre ++ r :: post := hlog
  obtain _ | ⟨a, pre⟩ := pre
  · obtain ⟨rfl, rfl⟩ := List.cons.inj hlog
    exact hpost writeFromBelow List.mem_cons_self rfl (by decide)
  · obtain _ | ⟨b, pre⟩ := pre
    · obtain ⟨-, hlog⟩ := List.cons.inj hlog
      obtain ⟨rfl, -⟩ := List.cons.inj hlog
      exact absurd hr (by decide)
    · simp at hlog

end State

end LibSystemCTLM.Tlm.Exmon
