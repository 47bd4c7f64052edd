import LibSystemCTLM.Foundation.Before
import LibSystemCTLM.Foundation.Ranges
import LibSystemCTLM.Foundation.Runs
import Mathlib.Logic.Function.Basic

/-!
# Snoops against responses

`ACESnoopChannels_S` of `private/ace/snoop-channels.h` keeps a snoop apart from the read and write responses to the
same addresses, which `axi2tlm-bridge.h` transfers. All of them are on one list, in their order; a snoop waits for
what overlaps with it before it there, then for the responses under way, and locks its range.

A lock has one range, though it lets several holders in if these do not overlap, and is free when the first of them
unlocks it; nothing locks a range for a write response, and a range that reaches the end of the address space overlaps
with none. So the ranges are kept apart in the runs in which a snoop gets through only when no other is in progress, no
write response is listed behind a snoop to its addresses, and all ranges end before the end of the space
(`excluded_of_run`).
-/

namespace LibSystemCTLM.Ace

open Foundation

/-- `ACELock`. -/
structure ACELock where
  /-- `m_ongoing`. -/
  ongoing : Bool := false
  /-- `m_addr` and `m_len`. -/
  range : Range 64 := {}

namespace ACELock

/-- `trylock`. -/
def trylock (l : ACELock) (r : Range 64) : Bool := !l.ongoing || !l.range.overlaps r

/-- The end of `lock`, when `trylock` has succeeded. -/
def lock (r : Range 64) : ACELock := { ongoing := true, range := r }

def unlock (l : ACELock) : ACELock := { l with ongoing := false }

variable {r r' : Range 64}

theorem apart_of_trylock (hr : r.Fits) (hr' : r'.Fits) (h : (lock r).trylock r' = true) : r.Apart r' :=
  Range.apart_of_not_overlaps hr hr' (by simpa [trylock, lock] using h)

theorem trylock_of_touches (hr : r.Fits) (hr' : r'.Fits) (h : r.Touches r') : (lock r).trylock r' = false := by
  simp [trylock, lock, Range.overlaps_of_touches hr hr' h]

end ACELock

namespace SnoopLocks

inductive Kind where
  | snoop | read | write
  deriving DecidableEq

/-- A payload on the list, by its kind. -/
structure Tx where
  kind : Kind
  range : Range 64
  deriving DecidableEq

inductive Phase where
  | waiting
  /-- A snoop behind `wait_for_response_channels`, in `lock`. -/
  | locking
  /-- A snoop that has locked its range, or a response that is transferred. -/
  | acting
  /-- A payload that is done with, but still on the list. -/
  | left
  deriving DecidableEq

structure State where
  /-- `m_overlapList`. -/
  overlapList : List ℕ := []
  tx : ℕ → Tx := fun _ => ⟨.snoop, {}⟩
  phase : ℕ → Phase := fun _ => .waiting
  lockSnoop : ACELock := {}
  lockRresp : ACELock := {}
  lockBresp : ACELock := {}

inductive Event where
  /-- `b_transport`, behind the delay, or `RunTLMTransaction` of the bridge: a payload gets on the list. -/
  | arrives (id : ℕ) (tx : Tx)
  /-- The thread of a snoop goes on. -/
  | turn (id : ℕ)
  /-- `read_data_phase` or `write_resp_phase`: the transfer of a response begins. -/
  | begins (id : ℕ)
  /-- A snoop or a transfer ends; `WaitForSnoop`, of a write. -/
  | ends (id : ℕ) (waitForSnoop : Bool)
  | reset

namespace State

variable (s : State)

def range (id : ℕ) : Range 64 := (s.tx id).range

def kind (id : ℕ) : Kind := (s.tx id).kind

def setPhase (id : ℕ) (p : Phase) : State := { s with phase := Function.update s.phase id p }

/-- A new payload is pushed back. -/
def arrives (id : ℕ) (tx : Tx) : State :=
  { s with
    overlapList := s.overlapList ++ [id]
    tx := Function.update s.tx id tx
    phase := Function.update s.phase id .waiting }

/-- `wait_for_overlapping_tx`. -/
def waitForOverlappingTx (id : ℕ) : Bool := (s.overlapList.takeWhile (· ≠ id)).any fun i => (s.range i).overlaps (s.range id)

/-- The checks of `wait_for_response_channels`, in a turn in which neither has to wait. -/
def responseChannels (id : ℕ) : Bool := s.lockRresp.trylock (s.range id) && s.lockBresp.trylock (s.range id)

/-- A snoop that gets to `lock_snoop.lock`. -/
def getsThrough (id : ℕ) : Prop := s.phase id = .waiting ∧ s.waitForOverlappingTx id = false ∧ s.responseChannels id = true

instance (id : ℕ) : Decidable (s.getsThrough id) := inferInstanceAs (Decidable (_ ∧ _ ∧ _))

/-- `lock_snoop.lock`. -/
def lockForSnoop (id : ℕ) : State :=
  if s.lockSnoop.trylock (s.range id) = true then { s.setPhase id .acting with lockSnoop := .lock (s.range id) }
  else s.setPhase id .locking

def turn (id : ℕ) : State := if s.getsThrough id ∨ s.phase id = .locking then s.lockForSnoop id else s

/-- One thread transfers the responses of a kind. -/
def idle (k : Kind) : Bool := s.overlapList.all fun i => decide (s.kind i = k → s.phase i ≠ .acting)

def remove (id : ℕ) : State := { s with overlapList := s.overlapList.filter (· ≠ id) }

def begins (id : ℕ) : Option State :=
  match s.kind id with
  | .snoop => none
  | .read =>
    if s.lockSnoop.trylock (s.range id) = true ∧ s.lockRresp.trylock (s.range id) = true then
      some { s.setPhase id .acting with lockRresp := .lock (s.range id) }
    else none
  | .write => some (s.setPhase id .acting)

def ends (id : ℕ) (waitForSnoop : Bool) : State :=
  match s.kind id with
  | .snoop => { s.remove id with lockSnoop := s.lockSnoop.unlock }
  | .read => { s.remove id with lockRresp := s.lockRresp.unlock }
  | .write => if waitForSnoop = true then { s.remove id with lockBresp := s.lockBresp.unlock } else s.remove id

/-- What is in progress is aborted, and what still waits leaves with an error. -/
def reset : State :=
  { s with
    overlapList := s.overlapList.filter fun i => decide (s.phase i ≠ .acting)
    phase := fun _ => .left
    lockSnoop := s.lockSnoop.unlock
    lockRresp := s.lockRresp.unlock
    lockBresp := s.lockBresp.unlock }

end State

def step (s : State) : Event → Option State
  | .arrives id tx => if id ∉ s.overlapList then some (s.arrives id tx) else none
  | .turn id => if id ∈ s.overlapList ∧ s.kind id = .snoop then some (s.turn id) else none
  | .begins id => if id ∈ s.overlapList ∧ s.phase id = .waiting ∧ s.idle (s.kind id) = true then s.begins id else none
  | .ends id waitForSnoop => if id ∈ s.overlapList ∧ s.phase id = .acting then some (s.ends id waitForSnoop) else none
  | .reset => some s.reset

/-! ### The property -/

variable {s s' : State} {i j id : ℕ}

/-- A payload of a kind that is in progress. -/
structure State.Acts (s : State) (k : Kind) (i : ℕ) : Prop where
  mem : i ∈ s.overlapList
  kind : s.kind i = k
  phase : s.phase i = .acting

/-- **Snoops exclude responses.** -/
structure Excluded (s : State) : Prop where
  apart : ∀ {i j k}, s.Acts .snoop i → s.Acts k j → k ≠ .snoop → (s.range i).Apart (s.range j)
  /-- What is in progress holds its range, whatever else has been unlocked. -/
  held : ∀ {i r}, s.Acts .snoop i → r.Fits → (s.range i).Touches r → s.lockSnoop.trylock r = false
  heldRresp : ∀ {i r}, s.Acts .read i → r.Fits → (s.range i).Touches r → s.lockRresp.trylock r = false
  /-- A snoop in progress has no other to its addresses before it that is not done. -/
  inOrder : ∀ {i j}, s.Acts .snoop j → s.kind i = .snoop → Before s.overlapList i j → (s.range i).Apart (s.range j)

def Fair (s : State) : Event → Prop
  | .arrives _ tx => tx.range.Fits ∧ (tx.kind = .write → ∀ i ∈ s.overlapList, s.kind i = .snoop → (s.range i).overlaps tx.range = false)
  | .turn id => s.getsThrough id → s.lockSnoop.ongoing = false
  | .reset => ∀ i ∈ s.overlapList, s.phase i = .acting
  | _ => True

/-- What holds along a run. -/
structure Inv (s : State) : Prop where
  nodup : s.overlapList.Nodup
  fits : ∀ i ∈ s.overlapList, (s.range i).Fits
  noLocking : ∀ i ∈ s.overlapList, s.phase i ≠ .locking
  lockSnoop : ∀ {i}, s.Acts .snoop i → s.lockSnoop = .lock (s.range i)
  lockRresp : ∀ {i}, s.Acts .read i → s.lockRresp = .lock (s.range i)
  oneSnoop : ∀ {i j}, s.Acts .snoop i → s.Acts .snoop j → i = j
  oneRead : ∀ {i j}, s.Acts .read i → s.Acts .read j → i = j
  readApart : ∀ {i j}, s.Acts .snoop i → s.Acts .read j → (s.range i).Apart (s.range j)
  /-- A snoop in progress overlaps with nothing before it. -/
  before : ∀ {i j}, s.Acts .snoop j → Before s.overlapList i j → (s.range i).overlaps (s.range j) = false
  /-- A write response overlaps with no snoop before it. -/
  write : ∀ {i j}, s.kind i = .snoop → s.kind j = .write → Before s.overlapList i j → (s.range i).overlaps (s.range j) = false

theorem inv_init : Inv {} := by
  have hnone : ∀ {k i}, ¬ State.Acts {} k i := fun h => List.not_mem_nil h.mem
  exact ⟨List.nodup_nil, nofun, nofun, (absurd · hnone), (absurd · hnone), (absurd · hnone), (absurd · hnone), (absurd · hnone),
    (absurd · hnone), fun _ _ h => absurd h.left_mem List.not_mem_nil⟩

theorem Inv.apart_before (hi : Inv s) (hb : Before s.overlapList i j) (h : (s.range i).overlaps (s.range j) = false) :
    (s.range i).Apart (s.range j) :=
  Range.apart_of_not_overlaps (hi.fits i hb.left_mem) (hi.fits j hb.right_mem) h

theorem Inv.writeApart (hi : Inv s) (h : s.Acts .snoop i) (h' : s.Acts .write j) : (s.range i).Apart (s.range j) := by
  have hne : i ≠ j := by
    rintro rfl
    exact Kind.noConfusion (h.kind.symm.trans h'.kind)
  rcases before_total h.mem h'.mem hne with hb | hb
  · exact hi.apart_before hb (hi.write h.kind h'.kind hb)
  · exact (hi.apart_before hb (hi.before h hb)).symm

theorem excluded_of_inv (hi : Inv s) : Excluded s where
  apart := by
    intro i j k h h' hk
    cases k with
    | snoop => exact absurd rfl hk
    | read => exact hi.readApart h h'
    | write => exact hi.writeApart h h'
  held := by
    intro i r h hr ht
    rw [hi.lockSnoop h]
    exact ACELock.trylock_of_touches (hi.fits i h.mem) hr ht
  heldRresp := by
    intro i r h hr ht
    rw [hi.lockRresp h]
    exact ACELock.trylock_of_touches (hi.fits i h.mem) hr ht
  inOrder h _ hb := hi.apart_before hb (hi.before h hb)

/-! ### Steps -/

/-- A snoop that gets through overlaps with nothing before it. -/
theorem Inv.before_of_getsThrough (hi : Inv s) (h : s.getsThrough id) (hb : Before s.overlapList i id) :
    (s.range i).overlaps (s.range id) = false := by
  have hnone := List.any_eq_false.1 h.2.1 i (hb.mem_takeWhile hi.nodup)
  simpa using hnone

/-- The lock is free, so no snoop is in progress. -/
theorem Inv.no_snoop (hi : Inv s) (h : s.lockSnoop.ongoing = false) : ¬s.Acts .snoop i := by
  intro ha
  rw [hi.lockSnoop ha] at h
  cases h

theorem Inv.arrives {tx : Tx} (hi : Inv s) (hnot : id ∉ s.overlapList) (hok : Fair s (.arrives id tx)) : Inv (s.arrives id tx) := by
  generalize hs' : s.arrives id tx = s'
  have hl : s'.overlapList = s.overlapList ++ [id] := by
    rw [← hs']
    rfl
  have hother : ∀ {i}, i ∈ s.overlapList → i ≠ id := by
    rintro i him rfl
    exact hnot him
  have htx : ∀ {i}, i ∈ s.overlapList → s'.tx i = s.tx i := by
    intro i him
    rw [← hs']
    exact Function.update_of_ne (hother him) _ _
  have hrange : ∀ {i}, i ∈ s.overlapList → s'.range i = s.range i := fun him => congrArg Tx.range (htx him)
  have hkind : ∀ {i}, i ∈ s.overlapList → s'.kind i = s.kind i := fun him => congrArg Tx.kind (htx him)
  have hnew : s'.tx id = tx := by
    rw [← hs']
    exact Function.update_self _ _ _
  have hwaits : s'.phase id = .waiting := by
    rw [← hs']
    exact Function.update_self _ _ _
  have hphase : ∀ {i}, i ∈ s.overlapList → s'.phase i = s.phase i := by
    intro i him
    rw [← hs']
    exact Function.update_of_ne (hother him) _ _
  have hmem : ∀ {i}, i ∈ s'.overlapList → i ∈ s.overlapList ∨ i = id := by
    intro i him
    simpa [hl] using him
  have hacts : ∀ {k i}, s'.Acts k i → s.Acts k i := by
    intro k i h
    rcases hmem h.mem with him | rfl
    · exact ⟨him, (hkind him).symm.trans h.kind, (hphase him).symm.trans h.phase⟩
    · exact Phase.noConfusion (hwaits.symm.trans h.phase)
  have hnodup : s'.overlapList.Nodup := by
    rw [hl]
    exact List.nodup_append.2 ⟨hi.nodup, List.nodup_singleton id, fun a ha b hb hab => hnot (by
      rw [← List.mem_singleton.1 hb, ← hab]
      exact ha)⟩
  -- what stands before something old is old
  have hold : ∀ {i j}, j ∈ s.overlapList → Before s'.overlapList i j → Before s.overlapList i j := by
    intro i j hj hb
    rw [hl] at hb hnodup
    exact Before.of_append hnodup hj hb
  have hlocks : s'.lockSnoop = s.lockSnoop ∧ s'.lockRresp = s.lockRresp := by rw [← hs']; exact ⟨rfl, rfl⟩
  refine ⟨hnodup, ?_, ?_, ?_, ?_, ?_, ?_, ?_, ?_, ?_⟩
  · intro i him
    rcases hmem him with him | rfl
    · rw [hrange him]
      exact hi.fits i him
    · rw [State.range, hnew]
      exact hok.1
  · intro i him
    rcases hmem him with him | rfl
    · rw [hphase him]
      exact hi.noLocking i him
    · rw [hwaits]
      nofun
  · intro i h
    rw [hlocks.1, hrange (hacts h).mem]
    exact hi.lockSnoop (hacts h)
  · intro i h
    rw [hlocks.2, hrange (hacts h).mem]
    exact hi.lockRresp (hacts h)
  · exact fun h h' => hi.oneSnoop (hacts h) (hacts h')
  · exact fun h h' => hi.oneRead (hacts h) (hacts h')
  · intro i j h h'
    rw [hrange (hacts h).mem, hrange (hacts h').mem]
    exact hi.readApart (hacts h) (hacts h')
  · intro i j h hb
    have hb' := hold (hacts h).mem hb
    rw [hrange hb'.left_mem, hrange (hacts h).mem]
    exact hi.before (hacts h) hb'
  · intro i j hs hw hb
    rcases hmem hb.right_mem with hj | rfl
    · have hb' := hold hj hb
      rw [hrange hb'.left_mem, hrange hj]
      exact hi.write ((hkind hb'.left_mem).symm.trans hs) ((hkind hj).symm.trans hw) hb'
    · have hne := hb.ne hnodup
      have him := (hmem hb.left_mem).resolve_right hne
      have hw' : tx.kind = .write := by rw [← hnew]; exact hw
      have hr : s'.range j = tx.range := congrArg Tx.range hnew
      rw [hrange him, hr]
      exact hok.2 hw' i him ((hkind him).symm.trans hs)

/-- Something is taken off the list, and no lock that is held is let go of. -/
theorem Inv.shrink (hi : Inv s) (htx : s'.tx = s.tx) (hsub : s'.overlapList.Sublist s.overlapList)
    (hacts : ∀ {k i}, s'.Acts k i → s.Acts k i) (hlocking : ∀ i ∈ s'.overlapList, s'.phase i ≠ .locking)
    (hsnoop : ∀ {i}, s'.Acts .snoop i → s'.lockSnoop = s.lockSnoop) (hread : ∀ {i}, s'.Acts .read i → s'.lockRresp = s.lockRresp) : Inv s' := by
  have hrange : ∀ i, s'.range i = s.range i := fun i => congrArg (fun t : ℕ → Tx => (t i).range) htx
  have hkind : ∀ i, s'.kind i = s.kind i := fun i => congrArg (fun t : ℕ → Tx => (t i).kind) htx
  refine ⟨hi.nodup.sublist hsub, ?_, hlocking, ?_, ?_, ?_, ?_, ?_, ?_, ?_⟩
  · intro i him
    rw [hrange]
    exact hi.fits i (hsub.subset him)
  · intro i h
    rw [hsnoop h, hrange]
    exact hi.lockSnoop (hacts h)
  · intro i h
    rw [hread h, hrange]
    exact hi.lockRresp (hacts h)
  · exact fun h h' => hi.oneSnoop (hacts h) (hacts h')
  · exact fun h h' => hi.oneRead (hacts h) (hacts h')
  · intro i j h h'
    rw [hrange, hrange]
    exact hi.readApart (hacts h) (hacts h')
  · intro i j h hb
    rw [hrange, hrange]
    exact hi.before (hacts h) (hb.trans hsub)
  · intro i j hs hw hb
    rw [hrange, hrange]
    exact hi.write ((hkind i).symm.trans hs) ((hkind j).symm.trans hw) (hb.trans hsub)

theorem Inv.ends (hi : Inv s) (hid : id ∈ s.overlapList) (hp : s.phase id = .acting) (waitForSnoop : Bool) : Inv (s.ends id waitForSnoop) := by
  have hremove : ∀ {k i}, i ∈ s.overlapList.filter (· ≠ id) → s.kind i = k → s.phase i = .acting → s.Acts k i ∧ i ≠ id := by
    intro k i him hk hph
    rw [List.mem_filter, decide_eq_true_iff] at him
    exact ⟨⟨him.1, hk, hph⟩, him.2⟩
  have hlocking : ∀ i ∈ s.overlapList.filter (· ≠ id), s.phase i ≠ .locking := fun i him => hi.noLocking i (List.mem_filter.1 him).1
  unfold State.ends
  split
  next hk =>
    refine hi.shrink rfl List.filter_sublist ?_ hlocking ?_ fun _ => rfl
    · exact fun h => (hremove h.mem h.kind h.phase).1
    · intro i h
      obtain ⟨ha, hne⟩ := hremove h.mem h.kind h.phase
      exact absurd (hi.oneSnoop ha ⟨hid, hk, hp⟩) hne
  next hk =>
    refine hi.shrink rfl List.filter_sublist ?_ hlocking (fun _ => rfl) ?_
    · exact fun h => (hremove h.mem h.kind h.phase).1
    · intro i h
      obtain ⟨ha, hne⟩ := hremove h.mem h.kind h.phase
      exact absurd (hi.oneRead ha ⟨hid, hk, hp⟩) hne
  next hk =>
    split_ifs
    · exact hi.shrink rfl List.filter_sublist (fun h => (hremove h.mem h.kind h.phase).1) hlocking (fun _ => rfl) fun _ => rfl
    · exact hi.shrink rfl List.filter_sublist (fun h => (hremove h.mem h.kind h.phase).1) hlocking (fun _ => rfl) fun _ => rfl

theorem Inv.reset (hi : Inv s) (hok : Fair s .reset) : Inv s.reset := by
  have hempty : ∀ i, i ∉ s.reset.overlapList := by
    intro i him
    obtain ⟨him, hne⟩ := List.mem_filter.1 him
    exact of_decide_eq_true hne (hok i him)
  exact hi.shrink rfl List.filter_sublist (fun h => absurd h.mem (hempty _)) (fun i him => absurd him (hempty i))
    (fun h => absurd h.mem (hempty _)) fun h => absurd h.mem (hempty _)

/-- One more payload is in progress, and what it has to keep away from is away. -/
theorem Inv.act {k : Kind} (hi : Inv s) (hid : id ∈ s.overlapList) (hk : s.kind id = k) (htx : s'.tx = s.tx)
    (hl : s'.overlapList = s.overlapList) (hphase : s'.phase = Function.update s.phase id .acting)
    (hsnoop : k = .snoop → (∀ {i}, ¬s.Acts .snoop i) ∧ s'.lockSnoop = .lock (s.range id) ∧
      (∀ {j}, s.Acts .read j → (s.range id).Apart (s.range j)) ∧ ∀ {i}, Before s.overlapList i id → (s.range i).overlaps (s.range id) = false)
    (hsnoop' : k ≠ .snoop → s'.lockSnoop = s.lockSnoop)
    (hread : k = .read → (∀ {i}, ¬s.Acts .read i) ∧ s'.lockRresp = .lock (s.range id) ∧
      ∀ {i}, s.Acts .snoop i → (s.range i).Apart (s.range id))
    (hread' : k ≠ .read → s'.lockRresp = s.lockRresp) : Inv s' := by
  have hrange : ∀ i, s'.range i = s.range i := fun i => congrArg (fun t : ℕ → Tx => (t i).range) htx
  have hkind : ∀ i, s'.kind i = s.kind i := fun i => congrArg (fun t : ℕ → Tx => (t i).kind) htx
  have hacts : ∀ {k' i}, s'.Acts k' i → s.Acts k' i ∨ i = id ∧ k' = k := by
    intro k' i h
    have hkd := (hkind i).symm.trans h.kind
    by_cases hne : i = id
    · subst hne
      exact .inr ⟨rfl, hkd.symm.trans hk⟩
    · have hph := h.phase
      rw [hphase, Function.update_of_ne hne] at hph
      exact .inl ⟨hl ▸ h.mem, hkd, hph⟩
  have hone : ∀ {k' i j}, (k' = k → ∀ {i}, ¬s.Acts k' i) → (∀ {i j}, s.Acts k' i → s.Acts k' j → i = j) → s'.Acts k' i → s'.Acts k' j → i = j := by
    intro k' i j hnone hone h h'
    rcases hacts h with ha | ⟨rfl, rfl⟩ <;> rcases hacts h' with ha' | ⟨rfl, hk'⟩
    · exact hone ha ha'
    · exact absurd ha (hnone hk')
    · exact absurd ha' (hnone rfl)
    · rfl
  refine ⟨hl ▸ hi.nodup, ?_, ?_, ?_, ?_, ?_, ?_, ?_, ?_, ?_⟩
  · intro i him
    rw [hrange]
    exact hi.fits i (hl ▸ him)
  · intro i him
    by_cases hne : i = id
    · subst hne
      rw [hphase, Function.update_self]
      nofun
    · rw [hphase, Function.update_of_ne hne]
      exact hi.noLocking i (hl ▸ him)
  · intro i h
    rw [hrange]
    rcases hacts h with ha | ⟨rfl, hk'⟩
    · have hne : k ≠ .snoop := fun hk' => (hsnoop hk').1 ha
      rw [hsnoop' hne]
      exact hi.lockSnoop ha
    · exact (hsnoop hk'.symm).2.1
  · intro i h
    rw [hrange]
    rcases hacts h with ha | ⟨rfl, hk'⟩
    · have hne : k ≠ .read := fun hk' => (hread hk').1 ha
      rw [hread' hne]
      exact hi.lockRresp ha
    · exact (hread hk'.symm).2.1
  · exact hone (fun hk' => (hsnoop hk'.symm).1) hi.oneSnoop
  · exact hone (fun hk' => (hread hk'.symm).1) hi.oneRead
  · intro i j h h'
    rw [hrange, hrange]
    rcases hacts h with ha | ⟨rfl, hk'⟩ <;> rcases hacts h' with ha' | ⟨rfl, hk''⟩
    · exact hi.readApart ha ha'
    · exact (hread hk''.symm).2.2 ha
    · exact (hsnoop hk'.symm).2.2.1 ha'
    · exact Kind.noConfusion (hk'.trans hk''.symm)
  · intro i j h hb
    rw [hrange, hrange]
    rw [hl] at hb
    rcases hacts h with ha | ⟨rfl, hk'⟩
    · exact hi.before ha hb
    · exact (hsnoop hk'.symm).2.2.2 hb
  · intro i j hs hw hb
    rw [hrange, hrange]
    rw [hl] at hb
    exact hi.write ((hkind i).symm.trans hs) ((hkind j).symm.trans hw) hb

theorem Inv.turn (hi : Inv s) (hid : id ∈ s.overlapList) (hk : s.kind id = .snoop) (hok : Fair s (.turn id)) : Inv (s.turn id) := by
  unfold State.turn
  split_ifs with h
  · have hthrough : s.getsThrough id := h.resolve_right (hi.noLocking id hid)
    have hfree := hok hthrough
    rw [State.lockForSnoop, if_pos (by simp [ACELock.trylock, hfree])]
    refine hi.act hid hk rfl rfl rfl (fun _ => ⟨hi.no_snoop hfree, rfl, ?_, hi.before_of_getsThrough hthrough⟩) (absurd rfl) nofun fun _ => rfl
    -- a response in progress has locked its range
    intro j ha
    have htry : s.lockRresp.trylock (s.range id) = true := (Bool.and_eq_true _ _ ▸ hthrough.2.2).1
    rw [hi.lockRresp ha] at htry
    exact (ACELock.apart_of_trylock (hi.fits j ha.mem) (hi.fits id hid) htry).symm
  · exact hi

theorem Inv.begins (hi : Inv s) (hid : id ∈ s.overlapList) (hidle : s.idle (s.kind id) = true) (h : s.begins id = some s') : Inv s' := by
  unfold State.begins at h
  split at h
  · cases h
  next hk =>
    split_ifs at h with htry
    cases h
    refine hi.act hid hk rfl rfl rfl nofun (fun _ => rfl) (fun _ => ⟨?_, rfl, ?_⟩) (absurd rfl)
    · intro i ha
      have hnot := List.all_eq_true.1 hidle i ha.mem
      rw [hk] at hnot
      exact of_decide_eq_true hnot ha.kind ha.phase
    · intro i ha
      rw [hi.lockSnoop ha] at htry
      exact ACELock.apart_of_trylock (hi.fits i ha.mem) (hi.fits id hid) htry.1
  next hk =>
    cases h
    exact hi.act hid hk rfl rfl rfl nofun (fun _ => rfl) nofun fun _ => rfl

/-- **A step keeps snoops and responses apart.** -/
theorem Inv.step {e : Event} (hi : Inv s) (hok : Fair s e) (h : step s e = some s') : Inv s' := by
  cases e with
  | arrives id tx =>
    simp only [SnoopLocks.step] at h
    split_ifs at h with hnot
    cases h
    exact hi.arrives hnot hok
  | turn id =>
    simp only [SnoopLocks.step] at h
    split_ifs at h with hid
    cases h
    exact hi.turn hid.1 hid.2 hok
  | begins id =>
    simp only [SnoopLocks.step] at h
    split_ifs at h with hid
    exact hi.begins hid.1 hid.2.2 h
  | ends id waitForSnoop =>
    simp only [SnoopLocks.step] at h
    split_ifs at h with hid
    cases h
    exact hi.ends hid.1 hid.2 waitForSnoop
  | reset =>
    cases h
    exact hi.reset hok

/-- **Snoops and responses exclude each other in every state** of a run in which snoops get through one at a time, no
write response is listed behind a snoop to its addresses, the ranges end before the end of the address space, and a
reset finds nothing that waits. -/
theorem excluded_of_run (h : Reach step Fair {} s) : Excluded s :=
  excluded_of_inv (h.invariant inv_init fun hi hok hs => hi.step hok hs)

instance : ∀ s e, Decidable (Fair s e)
  | s, .arrives _ tx => inferInstanceAs (Decidable (tx.range.Fits ∧ (tx.kind = .write → ∀ i ∈ s.overlapList, s.kind i = .snoop → (s.range i).overlaps tx.range = false)))
  | s, .turn id => inferInstanceAs (Decidable (s.getsThrough id → s.lockSnoop.ongoing = false))
  | s, .reset => inferInstanceAs (Decidable (∀ i ∈ s.overlapList, s.phase i = .acting))
  | _, .begins _ | _, .ends _ _ => .isTrue trivial

/-- A snoop of one line, and a response of each kind for others. -/
def oneSnoop : List Event :=
  [.arrives 0 ⟨.snoop, ⟨0, 64⟩⟩, .turn 0, .arrives 1 ⟨.read, ⟨64, 64⟩⟩, .begins 1, .arrives 2 ⟨.write, ⟨128, 64⟩⟩, .begins 2]

theorem excluded_oneSnoop : ∃ s, run step {} oneSnoop = some s ∧ Excluded s := by
  have hok : RunOk step Fair {} oneSnoop := by decide +kernel
  have hsome : (run step {} oneSnoop).isSome = true := by decide +kernel
  obtain ⟨s, hs⟩ := Option.isSome_iff_exists.1 hsome
  exact ⟨s, hs, excluded_of_run (Reach.refl.of_run hok hs)⟩

/-- Two snoops of different lines are in progress, and the lock has the range of the second one: a read response for the
line of the first is transferred. -/
theorem not_excluded_twoSnoops : ¬∀ s, Reach step anyStep {} s → Excluded s := by
  intro h
  let events : List Event :=
    [.arrives 0 ⟨.snoop, ⟨0, 64⟩⟩, .arrives 1 ⟨.snoop, ⟨4096, 64⟩⟩, .turn 0, .turn 1, .arrives 2 ⟨.read, ⟨0, 64⟩⟩, .begins 2]
  have hend : (run step {} events).map (fun s => (s.overlapList, s.tx 0, s.tx 2, s.phase 0, s.phase 2)) =
      some ([0, 1, 2], ⟨.snoop, ⟨0, 64⟩⟩, ⟨.read, ⟨0, 64⟩⟩, .acting, .acting) := by decide +kernel
  obtain ⟨s, hs, hfinal⟩ := Option.map_eq_some_iff.1 hend
  simp only [Prod.mk.injEq] at hfinal
  obtain ⟨hlist, htx, htx', hphase, hphase'⟩ := hfinal
  have hsnoop : s.Acts .snoop 0 := ⟨by simp [hlist], by rw [State.kind, htx], hphase⟩
  have hread : s.Acts .read 2 := ⟨by simp [hlist], by rw [State.kind, htx'], hphase'⟩
  refine (h s (reach_of_run hs)).apart hsnoop hread nofun ⟨0, ?_, ?_⟩
  · rw [State.range, htx]
    decide
  · rw [State.range, htx']
    decide

end SnoopLocks

end LibSystemCTLM.Ace
