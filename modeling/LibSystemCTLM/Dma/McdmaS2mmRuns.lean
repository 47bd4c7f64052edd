import LibSystemCTLM.Dma.McdmaS2mm
import Mathlib.Data.List.Nodup

/-!
# The ring of an S2MM channel

Along every run a packet that is accepted is stored in the buffer of the descriptor it found not completed,
that descriptor alone is marked, with the length of the packet, and the current descriptor goes on to the next;
a packet that is dropped changes nothing; and a channel whose ring was extended is not idle until it runs out
again (`good_of_run`).

Three kinds of steps are left out (`Fair`). The data is stored before the completed bit is looked at, so a
packet that the descriptor drops is written over what its buffer held. The whole descriptor is stored again, so
a change of it since it was loaded is undone. And a write of the tail does not wake a channel that is idle,
which it does in the other direction.
-/

namespace LibSystemCTLM.Mcdma

open Foundation Tlm

/-- The length fits in its field, beside the other bits of the status. -/
theorem S2mmBd.transferred_complete {bd : S2mmBd} {n : ℕ} (h : n ≤ bd.bdlen) : (bd.complete n).transferred = n := by
  have hlt : n < 2 ^ 26 := by
    refine Nat.lt_of_le_of_lt h ?_
    rw [bdlen, BitVec.toNat_and]
    exact Nat.lt_of_le_of_lt Nat.and_le_right (by decide)
  have hbits : (1#32 <<< 31 ||| 1#32 <<< 27 ||| 1#32 <<< 26) &&& 0x3ffffff = 0#32 := by decide
  have hmask : (0x3ffffff : BitVec 32).toNat = 2 ^ 26 - 1 := by decide
  rw [transferred, complete, BitVec.and_or_distrib_right, hbits, BitVec.zero_or, BitVec.toNat_and, hmask, BitVec.toNat_ofNat,
    Nat.mod_eq_of_lt (by omega), Nat.and_two_pow_sub_one_eq_mod, Nat.mod_eq_of_lt hlt]

theorem S2mmBd.completed_complete (bd : S2mmBd) (n : ℕ) : (bd.complete n).completed = true := by
  simp [completed, complete]

namespace S2mm

/-! ### The property -/

/-- What holds of a packet that is through. -/
def Record.Correct (r : Record) : Prop :=
  match r.outcome with
  | .accepted cur bd next =>
    bd.completed = false ∧ next = bd.next ∧
      (bd.complete r.data.length).completed = true ∧ (bd.complete r.data.length).transferred = r.data.length ∧
      ∃ old, r.writes = [.data bd.buffer old r.data, .desc cur bd (bd.complete r.data.length)]
  | .dropped reason => (∀ w ∈ r.writes, w.Same) ∧ (reason = .idle → r.extended = false)

/-- The descriptor that a packet of the channel took, and the next. -/
def Record.taken (ch : Ch) (r : Record) : Option (Addr × Addr) :=
  match r.outcome with
  | .accepted cur _ next => if r.ch = ch then some (cur, next) else none
  | .dropped _ => none

/-- The packets took one descriptor of the ring after the other, from `a` on, as far as `b`. -/
def Follows (ch : Ch) : Addr → List Record → Addr → Prop
  | a, [], b => a = b
  | a, r :: l, b => (r.taken ch).elim (Follows ch a l b) fun p => p.1 = a ∧ Follows ch p.2 l b

/-- **The ring is right.** -/
structure Good (s₀ s : State) : Prop where
  correct : ∀ r ∈ s.log, r.Correct
  order : ∀ ch, Follows ch (s₀.cur ch) s.log (s.cur ch)
  resumed : ∀ ch, (s.chan ch).extended = true → s.idle ch = false

/-- Nothing has happened yet. -/
structure Fresh (s : State) : Prop where
  log : s.log = []
  chan : ∀ ch, (s.chan ch).rx = .ready ∧ (s.chan ch).writes = [] ∧ (s.chan ch).extended = false

/-- Data is stored for a completed descriptor only if it is there already, and a descriptor that is stored has not
changed since it was loaded. -/
def FairRx (s : State) (ch : Ch) : Rx → Prop
  | .loaded data bd => bd.completed = true → loadBytes s.mem bd.buffer data.length = data
  | .stored _ bd => bd.completed = false → s.desc (s.cur ch) = bd
  | _ => True

/-- The steps that are not left out: those, and the tail of a channel that runs is not written when it is idle. -/
def Fair (s : State) : Act → Prop
  | .receive ch => FairRx s ch (s.chan ch).rx
  | .write (.taildescMsb ch) _ => rs (s.chan ch).regs.cr = true → s.idle ch = false
  | _ => True

instance (s : State) (ch : Ch) : ∀ rx, Decidable (FairRx s ch rx)
  | .ready | .written _ _ => isTrue trivial
  | .loaded data bd => inferInstanceAs (Decidable (bd.completed = true → loadBytes s.mem bd.buffer data.length = data))
  | .stored _ bd => inferInstanceAs (Decidable (bd.completed = false → s.desc (s.cur ch) = bd))

instance (s : State) : ∀ a, Decidable (Fair s a)
  | .receive ch => inferInstanceAs (Decidable (FairRx s ch (s.chan ch).rx))
  | .write (.taildescMsb ch) _ => inferInstanceAs (Decidable (rs (s.chan ch).regs.cr = true → s.idle ch = false))
  | .write .ccr _ | .write .chen _ | .write (.cr _) _ | .write (.taildescLsb _) _ => isTrue trivial
  | .packet _ _ | .setDesc _ _ | .setMem _ _ => isTrue trivial

/-! ### The invariant -/

/-- What the packet of a channel did so far. -/
def Channel.InFlight (c : Channel) : Prop :=
  match c.rx with
  | .ready | .loaded _ _ => c.writes = []
  | .stored data bd =>
    data.length ≤ bd.bdlen ∧ ∃ old, c.writes = [.data bd.buffer old data] ∧ (bd.completed = true → old = data)
  | .written data bd =>
    data.length ≤ bd.bdlen ∧ bd.completed = false ∧
      ∃ old, c.writes = [.data bd.buffer old data, .desc c.regs.cur bd (bd.complete data.length)]

structure Channel.Ok (c : Channel) : Prop where
  inFlight : c.InFlight
  resumed : c.extended = true → c.regs.idle idleShift = false

structure Inv (s₀ s : State) : Prop where
  correct : ∀ r ∈ s.log, r.Correct
  order : ∀ ch, Follows ch (s₀.cur ch) s.log (s.cur ch)
  chan : ∀ ch, (s.chan ch).Ok

theorem Inv.good {s₀ s : State} (h : Inv s₀ s) : Good s₀ s := ⟨h.correct, h.order, fun ch => (h.chan ch).resumed⟩

theorem Follows.concat {ch : Ch} {a m b : Addr} {l : List Record} {r : Record} (h : Follows ch a l m) (hr : Follows ch m [r] b) :
    Follows ch a (l ++ [r]) b := by
  induction l generalizing a with
  | nil => exact (show a = m from h) ▸ hr
  | cons r' l ih =>
    rw [List.cons_append]
    simp only [Follows] at h ⊢
    cases ht : r'.taken ch with
    | none =>
      rw [ht] at h
      exact ih h
    | some p =>
      rw [ht] at h
      exact ⟨h.1, ih h.2⟩

theorem Fresh.inv {s : State} (h : Fresh s) : Inv s s where
  correct := by simp [h.log]
  order ch := by
    rw [h.log]
    rfl
  chan ch := by
    obtain ⟨hrx, hwrites, hext⟩ := h.chan ch
    refine ⟨?_, fun he => absurd he (by simp [hext])⟩
    simp only [Channel.InFlight, hrx, hwrites]

variable {s₀ s s' : State} {ch : Ch} {c : Channel}

/-- A step within one channel that leaves its current descriptor. -/
theorem Inv.setChan (h : Inv s₀ s) (hlog : s'.log = s.log) (hchan : s'.chan = Function.update s.chan ch c) (hc : c.Ok)
    (hcur : c.regs.cur = s.cur ch) : Inv s₀ s' where
  correct := hlog ▸ h.correct
  order ch' := by
    have hsame : s'.cur ch' = s.cur ch' := by
      rw [State.cur, hchan]
      by_cases he : ch' = ch
      · subst he
        rw [Function.update_self, hcur]
      · rw [Function.update_of_ne he, State.cur]
    rw [hsame, hlog]
    exact h.order ch'
  chan ch' := by
    rw [hchan]
    by_cases he : ch' = ch
    · subst he
      rw [Function.update_self]
      exact hc
    · rw [Function.update_of_ne he]
      exact h.chan ch'

theorem Inv.finish {data : List Byte} {outcome : Outcome} (h : Inv s₀ s)
    (hr : Record.Correct ⟨ch, data, outcome, c.writes, c.extended⟩)
    (hcur : Follows ch (s.cur ch) [⟨ch, data, outcome, c.writes, c.extended⟩] c.regs.cur)
    (hext : c.extended = true → c.regs.idle idleShift = false) : Inv s₀ (s.finish ch c data outcome) where
  correct r hmem := by
    rcases List.mem_append.1 hmem with hmem | hmem
    · exact h.correct r hmem
    · rw [List.mem_singleton.1 hmem]
      exact hr
  order ch' := by
    refine (h.order ch').concat ?_
    simp only [State.finish, State.cur, State.setChan]
    by_cases he : ch' = ch
    · subst he
      rw [Function.update_self]
      exact hcur
    · rw [Function.update_of_ne he]
      cases outcome with
      | accepted cur bd next =>
        have hne : ¬ch = ch' := fun h' => he h'.symm
        simp [Follows, Record.taken, hne]
      | dropped reason => simp [Follows, Record.taken]
  chan ch' := by
    simp only [State.finish, State.setChan]
    by_cases he : ch' = ch
    · subst he
      rw [Function.update_self]
      exact ⟨rfl, hext⟩
    · rw [Function.update_of_ne he]
      exact h.chan ch'

/-! ### The steps -/

/-- A packet is dropped before it did anything. -/
theorem Inv.drop (h : Inv s₀ s) (hrx : (s.chan ch).rx = .ready) (data : List Byte) {reason : Reason}
    (hreason : reason = .idle → s.idle ch = true) : Inv s₀ (s.drop ch data reason) := by
  have hwrites : (s.chan ch).writes = [] := by
    have hin := (h.chan ch).inFlight
    simpa only [Channel.InFlight, hrx] using hin
  refine h.finish ⟨by simp [hwrites], fun hidle => ?_⟩ rfl (h.chan ch).resumed
  by_contra hext
  have hrun := (h.chan ch).resumed (by simpa using hext)
  rw [show (s.chan ch).regs.idle idleShift = true from hreason hidle] at hrun
  exact absurd hrun (by decide)

theorem inv_deliver {data : List Byte} (h : Inv s₀ s) (hs : s.deliver ch data = some s') : Inv s₀ s' := by
  rw [State.deliver] at hs
  split at hs
  case h_2 => cases hs
  case h_1 hrx =>
    split_ifs at hs with hnil hstop hdis hchan hidle
    · cases hs
      exact h
    · cases hs
      exact h.drop hrx data nofun
    · cases hs
      exact h.drop hrx data nofun
    · cases hs
      exact h.drop hrx data nofun
    · cases hs
      exact h.drop hrx data fun _ => hidle
    · cases hs
      refine h.setChan rfl rfl ⟨?_, (h.chan ch).resumed⟩ rfl
      have hin := (h.chan ch).inFlight
      simpa only [Channel.InFlight, hrx] using hin

theorem inv_storeData {data : List Byte} {bd : S2mmBd} (h : Inv s₀ s) (hrx : (s.chan ch).rx = .loaded data bd)
    (hfair : bd.completed = true → loadBytes s.mem bd.buffer data.length = data)
    (hs : s.storeData ch data bd = some s') : Inv s₀ s' := by
  rw [State.storeData] at hs
  split_ifs at hs with hlen
  cases hs
  have hin := (h.chan ch).inFlight
  simp only [Channel.InFlight, hrx] at hin
  refine h.setChan rfl rfl ⟨?_, (h.chan ch).resumed⟩ rfl
  simp only [Channel.InFlight, hin, List.nil_append]
  exact ⟨Nat.not_lt.1 hlen, _, rfl, hfair⟩

theorem inv_storeDesc {data : List Byte} {bd : S2mmBd} (h : Inv s₀ s) (hrx : (s.chan ch).rx = .stored data bd)
    (hfair : bd.completed = false → s.desc (s.cur ch) = bd) : Inv s₀ (s.storeDesc ch data bd) := by
  have hin := (h.chan ch).inFlight
  simp only [Channel.InFlight, hrx] at hin
  obtain ⟨hlen, old, hwrites, hold⟩ := hin
  rw [State.storeDesc]
  split_ifs with hdone
  · refine h.finish ⟨?_, nofun⟩ rfl nofun
    simp only [State.runOut, hwrites, List.mem_singleton]
    rintro w rfl
    exact hold hdone
  · have hdone : bd.completed = false := by simpa using hdone
    refine h.setChan rfl rfl ⟨?_, (h.chan ch).resumed⟩ rfl
    simp only [Channel.InFlight, hwrites]
    refine ⟨hlen, hdone, old, ?_⟩
    rw [hfair hdone]
    rfl

theorem inv_advance {data : List Byte} {bd : S2mmBd} (h : Inv s₀ s) (hrx : (s.chan ch).rx = .written data bd) :
    Inv s₀ (s.advance ch data bd) := by
  have hin := (h.chan ch).inFlight
  simp only [Channel.InFlight, hrx] at hin
  obtain ⟨hlen, hdone, old, hwrites⟩ := hin
  rw [State.advance]
  refine h.finish ⟨hdone, rfl, bd.completed_complete _, S2mmBd.transferred_complete hlen, old, ?_⟩ ?_ ?_
  · split_ifs <;> exact hwrites
  · simp [Follows, Record.taken]
  · simp only [ChannelRegs.idle_raiseIrq _ (show idleShift < 2 by decide), ChannelRegs.idle_setCur]
    split_ifs
    · exact nofun
    · exact (h.chan ch).resumed

theorem inv_write (h : Inv s₀ s) (r : Reg) (v : BitVec 32) (hfair : Fair s (.write r v)) : Inv s₀ (s.write v r) := by
  cases r with
  | ccr => exact ⟨h.correct, h.order, h.chan⟩
  | chen => exact ⟨h.correct, h.order, h.chan⟩
  | cr ch => exact h.setChan rfl rfl ⟨(h.chan ch).inFlight, (h.chan ch).resumed⟩ rfl
  | taildescLsb ch => exact h.setChan rfl rfl ⟨(h.chan ch).inFlight, (h.chan ch).resumed⟩ rfl
  | taildescMsb ch =>
    refine h.setChan rfl rfl ⟨(h.chan ch).inFlight, fun hext => ?_⟩ rfl
    rcases Bool.or_eq_true_iff.1 hext with hext | hrun
    · exact (h.chan ch).resumed hext
    · exact hfair hrun

theorem inv_step {a : Act} (h : Inv s₀ s) (hfair : Fair s a) (hs : step s a = some s') : Inv s₀ s' := by
  cases a with
  | packet ch data => exact inv_deliver h hs
  | receive ch =>
    simp only [step, State.receive] at hs
    simp only [Fair] at hfair
    cases hrx : (s.chan ch).rx with
    | ready => simp [hrx] at hs
    | loaded data bd =>
      rw [hrx] at hs hfair
      exact inv_storeData h hrx hfair hs
    | stored data bd =>
      rw [hrx] at hs hfair
      cases hs
      exact inv_storeDesc h hrx hfair
    | written data bd =>
      rw [hrx] at hs
      cases hs
      exact inv_advance h hrx
  | write r v =>
    cases hs
    exact inv_write h r v hfair
  | setDesc a bd =>
    cases hs
    exact ⟨h.correct, h.order, h.chan⟩
  | setMem a bs =>
    cases hs
    exact ⟨h.correct, h.order, h.chan⟩

/-- **The ring is right along every run** whose steps are not left out. -/
theorem good_of_run (h₀ : Fresh s₀) (h : Reach step Fair s₀ s) : Good s₀ s :=
  (h.invariant h₀.inv inv_step).good

/-- A ring of two descriptors: each is the next of the other. -/
def twoRing (status : BitVec 32) : State where
  ccr := 1
  chen := 1
  chan := fun _ => { regs := { cr := 1, curdescLsb := 0x100, taildescLsb := 0x200 } }
  desc := fun a => { next := if a = 0x100 then 0x200 else 0x100, buffer := 0x1000, ctrl := 64, status := status }

/-- A packet, an extension of the ring in the middle of the next, and a packet behind it. -/
def threePackets : List Act :=
  [.packet 0 [1, 2], .receive 0, .receive 0, .receive 0,
    .packet 0 [3], .receive 0, .receive 0, .write (.taildescMsb 0) 1, .receive 0,
    .setDesc 0x100 ⟨0x200, 0x2000, 64, 0⟩, .packet 0 [4], .receive 0, .receive 0, .receive 0]

set_option maxRecDepth 4096 in
theorem good_threePackets : ∃ s, run step (twoRing 0) threePackets = some s ∧ s.log.length = 3 ∧ Good (twoRing 0) s := by
  have hok : RunOk step Fair (twoRing 0) threePackets := by decide
  have hrun : ∃ s, run step (twoRing 0) threePackets = some s ∧ s.log.length = 3 := ⟨_, rfl, rfl⟩
  obtain ⟨s, hs, hlog⟩ := hrun
  exact ⟨s, hs, hlog, good_of_run ⟨rfl, fun _ => ⟨rfl, rfl, rfl⟩⟩ (Reach.refl.of_run hok hs)⟩

/-- A packet that the completed descriptor drops is written to its buffer. -/
theorem not_good_completed : ∃ s, run step (twoRing 0x80000000) [.packet 0 [1], .receive 0, .receive 0] = some s ∧ ¬Good (twoRing 0x80000000) s := by
  refine ⟨_, rfl, fun h => ?_⟩
  have hrec := h.correct ⟨0, [1], .dropped .completed, [.data 0x1000 [0] [1]], false⟩ (List.mem_singleton_self _)
  exact absurd (hrec.1 _ (List.mem_singleton_self _)) (by simp [Write.Same])

end S2mm

end LibSystemCTLM.Mcdma
