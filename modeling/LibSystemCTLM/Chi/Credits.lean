import LibSystemCTLM.Chi.Link

/-!
# Link credits are conserved

A credit is with the transmitter, on its way to it, spent on a flit that is on the wires, or with
the receiver: a clock edge moves it from one to the next (`sum_tick`), and a link stops only when
all of them are with the receiver (`drained_of_stop`). So together they are never more than
`MAX_CREDITS`, and a link that was deactivated has all of them again (`credits_of_reach`).

A receiver gives a credit back when the flit arrives, and not when it is taken; its list has no
bound, and the flits in it count for no credit (`queued_exceeds`).
-/

namespace LibSystemCTLM.Chi

open Foundation

namespace TxChannel

variable {link : LinkState} {lcrdv : Bool} {t : TxChannel}

/-- A credit that was held is spent on a flit. -/
theorem setupFlit_credits (link : LinkState) {t : TxChannel} (h : t.flitv = false) :
    (setupFlit link t).credits + (setupFlit link t).flitv.toNat = t.credits := by
  unfold setupFlit
  split
  · split
    · dsimp only
      rw [Bool.toNat_true]
      omega
    · rw [h, Bool.toNat_false, Nat.add_zero]
  · split
    · dsimp only
      rw [Bool.toNat_true]
      omega
    · rw [h, Bool.toNat_false, Nat.add_zero]

/-- The transmitter's credits: those it held, and the one that has come, are held or spent on a flit. -/
theorem tick_credits (t : TxChannel) (lcrdv : Bool) (h : link ≠ .stop) :
    (t.tick link lcrdv).credits + (t.tick link lcrdv).flitv.toNat = t.credits + lcrdv.toNat := by
  have hcollect : (if lcrdv then t.credits + 1 else t.credits) = t.credits + lcrdv.toNat := by cases lcrdv <;> rfl
  rw [← hcollect, tick, if_neg h]
  dsimp only
  split
  · rfl
  · exact setupFlit_credits link rfl

theorem tick_stop : t.tick .stop lcrdv = t := if_pos rfl

end TxChannel

namespace RxChannel

variable {link : LinkState} {flitv : Bool} {r : RxChannel}

theorem receive_credits (flitv : Bool) (r : RxChannel) : (r.receive flitv).credits = r.credits + flitv.toNat ∧
    (r.receive flitv).lcrdv = r.lcrdv := by
  cases flitv <;> exact ⟨rfl, rfl⟩

theorem grant_credits (h : r.lcrdv = false) : r.grant.credits + r.grant.lcrdv.toNat = r.credits := by
  unfold grant
  split
  · dsimp only
    rw [Bool.toNat_true]
    omega
  · rw [h, Bool.toNat_false, Nat.add_zero]

/-- The receiver's credits: those it had, and the one that has come with a flit, are kept or granted. -/
theorem tick_credits (r : RxChannel) (flitv : Bool) (h : link ≠ .stop) :
    (r.tick link flitv).credits + (r.tick link flitv).lcrdv.toNat = r.credits + flitv.toNat := by
  obtain ⟨hc, hl⟩ := receive_credits flitv { r with lcrdv := false }
  rw [tick, if_neg h]
  dsimp only
  split
  · rw [hc, hl]
    rfl
  · rw [grant_credits hl, hc]

theorem tick_stop : r.tick .stop flitv = { r with lcrdv := false } := by
  rw [tick, if_pos rfl]

theorem lcrdv_of_deactivate : (r.tick .deactivate flitv).lcrdv = false := (receive_credits flitv { r with lcrdv := false }).2

end RxChannel

namespace PortState

variable {rxState txState : LinkState} {deactivated : Bool} {p : PortState}

theorem txTick_ack (txState : LinkState) (p : PortState) : (txTick txState p).rxlinkactiveack = p.rxlinkactiveack := by
  unfold txTick
  split
  · split <;> rfl
  · split <;> rfl
  · rfl

/-- Only a deactivation withdraws the acknowledgement, and only when it is complete. -/
theorem ack_of_tick (h : (p.tick rxState txState deactivated).rxlinkactiveack = false) :
    p.rxlinkactiveack = false ∧ rxState ≠ .activate ∨ rxState = .deactivate ∧ deactivated = true := by
  rw [tick, txTick_ack] at h
  cases rxState with
  | activate => cases h
  | deactivate =>
    cases deactivated with
    | true => exact .inr ⟨rfl, rfl⟩
    | false => exact .inl ⟨h, by decide⟩
  | run => exact .inl ⟨h, by decide⟩
  | stop => exact .inl ⟨h, by decide⟩

end PortState

theorem getLinkState_eq_stop {req ack : Bool} : getLinkState req ack = .stop ↔ req = false ∧ ack = false := by
  cases req <;> cases ack <;> decide

theorem getLinkState_eq_activate {req ack : Bool} : getLinkState req ack = .activate ↔ req = true ∧ ack = false := by
  cases req <;> cases ack <;> decide

namespace Link

variable {C : Type} [Fintype C] {src : C → Side} {before : C → Bool} {n n' : Link C} {c : C} {s : Side}

section Channel

omit [Fintype C]

/-- The credits that the receiver does not have. -/
def outstanding (n : Link C) (c : C) : ℕ := (n.tx c).credits + (n.rx c).lcrdv.toNat + (n.tx c).flitv.toNat

/-- All the credits of a channel. -/
def sum (n : Link C) (c : C) : ℕ := n.outstanding c + (n.rx c).credits

/-- Neither a flit nor a credit is on the wires of the channel. -/
def Quiet (n : Link C) (c : C) : Prop := (n.tx c).flitv = false ∧ (n.rx c).lcrdv = false

/-- All the credits are with the receiver. -/
def Drained (n : Link C) (c : C) : Prop := n.outstanding c = 0 ∧ (n.rx c).credits = maxCredits

theorem quiet_of_outstanding (h : n.outstanding c = 0) : n.Quiet c := by
  unfold outstanding at h
  constructor
  · cases hf : (n.tx c).flitv with
    | false => rfl
    | true =>
      rw [hf, Bool.toNat_true] at h
      omega
  · cases hl : (n.rx c).lcrdv with
    | false => rfl
    | true =>
      rw [hl, Bool.toNat_true] at h
      omega

/-- What holds of every channel: its credits are no more than there are, and its wires are quiet when the link
is stopped. -/
structure Inv (src : C → Side) (n : Link C) (c : C) : Prop where
  sum_le : n.sum c ≤ maxCredits
  quiet : n.stateFrom (src c) = .stop → n.Quiet c

end Channel

/-- **A clock edge moves credits**, and neither makes nor loses any. -/
theorem sum_tick (h : n.stateFrom (src c) = .stop → n.Quiet c) : (n.tick src before).sum c = n.sum c := by
  unfold sum outstanding
  show ((n.tx c).tick _ _).credits + ((n.rx c).tick _ _).lcrdv.toNat + ((n.tx c).tick _ _).flitv.toNat + ((n.rx c).tick _ _).credits = _
  by_cases hst : n.stateFrom (src c) = .stop
  · obtain ⟨hf, hl⟩ := h hst
    rw [hst, TxChannel.tick_stop, RxChannel.tick_stop, hf, hl]
  · have ht := TxChannel.tick_credits (n.tx c) (n.rx c).lcrdv hst
    have hr := RxChannel.tick_credits (n.rx c) (n.tx c).flitv hst
    omega

/-- A link comes to a stop only from its deactivation, and only with all receivers deactivated. -/
theorem deactivate_of_stop (h : (n.tick src before).stateFrom s = .stop) :
    n.stateFrom s = .stop ∨ n.stateFrom s = .deactivate ∧ n.rxChnlsDeactivated src before s.peer = true := by
  obtain ⟨hreq, hack⟩ := getLinkState_eq_stop.1 h
  have hack' : ((n.port s.peer).tick (n.stateFrom s.peer.peer) (n.stateFrom s.peer)
    (n.rxChnlsDeactivated src before s.peer)).rxlinkactiveack = false := hack
  rw [Side.peer_peer] at hack'
  rcases PortState.ack_of_tick hack' with ⟨hlow, hnot⟩ | hdone
  · left
    have hno : (n.port s).txlinkactivereq = false := by
      by_contra hr
      have hact : n.stateFrom s = .activate := getLinkState_eq_activate.2 ⟨by simpa using hr, hlow⟩
      exact hnot hact
    exact getLinkState_eq_stop.2 ⟨hno, hlow⟩
  · exact .inr hdone

/-- **A deactivation is complete only with all the credits back**, whether the receiver's process has run before
the port's or not. -/
theorem drained_of_stop (hi : n.Inv src c) (hd : n.stateFrom (src c) = .deactivate)
    (hall : n.rxChnlsDeactivated src before (src c).peer = true) : (n.tick src before).Drained c := by
  have hsum := hi.sum_le
  have hkeep : (n.tick src before).sum c = n.sum c := sum_tick hi.quiet
  have hrx := of_decide_eq_true hall c (Side.peer_peer _).symm
  have hlow : ((n.tick src before).rx c).lcrdv = false := by
    show ((n.rx c).tick (n.stateFrom (src c)) _).lcrdv = false
    rw [hd, RxChannel.lcrdv_of_deactivate]
  unfold sum at hsum hkeep
  cases hb : before c with
  | true =>
    rw [if_pos hb] at hrx
    have hfull : ((n.tick src before).rx c).credits = maxCredits := hrx
    exact ⟨by omega, hfull⟩
  | false =>
    rw [hb, if_neg Bool.false_ne_true] at hrx
    have hnone : n.outstanding c = 0 := by omega
    have hquiet := quiet_of_outstanding hnone
    have hmoved := RxChannel.tick_credits (n.rx c) (n.tx c).flitv (show n.stateFrom (src c) ≠ .stop by rw [hd]; decide)
    have hl : ((n.rx c).tick (n.stateFrom (src c)) (n.tx c).flitv).lcrdv = false := hlow
    have hz : (n.tx c).flitv.toNat = 0 := by rw [hquiet.1, Bool.toNat_false]
    rw [hl, hz, Bool.toNat_false, Nat.add_zero, Nat.add_zero] at hmoved
    have hfull : ((n.tick src before).rx c).credits = maxCredits := hmoved.trans hrx
    exact ⟨by omega, hfull⟩

theorem Inv.tick (hi : n.Inv src c) : (n.tick src before).Inv src c where
  sum_le := by
    rw [sum_tick hi.quiet]
    exact hi.sum_le
  quiet := by
    intro hstop
    rcases deactivate_of_stop hstop with hst | ⟨hd, hall⟩
    · obtain ⟨hf, hl⟩ := hi.quiet hst
      constructor
      · show ((n.tx c).tick (n.stateFrom (src c)) _).flitv = false
        rw [hst, TxChannel.tick_stop, hf]
      · show ((n.rx c).tick (n.stateFrom (src c)) _).lcrdv = false
        rw [hst, RxChannel.tick_stop]
    · exact quiet_of_outstanding (drained_of_stop hi hd hall).1

/-- A step that moves no credit, nor the link. -/
structure SameCredits (n n' : Link C) : Prop where
  txCredits : ∀ c, (n'.tx c).credits = (n.tx c).credits
  flitv : ∀ c, (n'.tx c).flitv = (n.tx c).flitv
  rxCredits : ∀ c, (n'.rx c).credits = (n.rx c).credits
  lcrdv : ∀ c, (n'.rx c).lcrdv = (n.rx c).lcrdv
  stateFrom : ∀ s, n'.stateFrom s = n.stateFrom s

omit [Fintype C] in
theorem SameCredits.outstanding (h : n.SameCredits n') (c : C) : n'.outstanding c = n.outstanding c := by
  unfold Link.outstanding
  rw [h.txCredits, h.lcrdv, h.flitv]

omit [Fintype C] in
theorem SameCredits.sum (h : n.SameCredits n') (c : C) : n'.sum c = n.sum c := by
  unfold Link.sum
  rw [h.outstanding, h.rxCredits]

omit [Fintype C] in
theorem SameCredits.inv (h : n.SameCredits n') (hi : n.Inv src c) : n'.Inv src c where
  sum_le := by
    rw [h.sum]
    exact hi.sum_le
  quiet := by
    rw [h.stateFrom]
    intro hst
    rw [Quiet, h.flitv, h.lcrdv]
    exact hi.quiet hst

omit [Fintype C] in
/-- **A reset loses what is on the wires**, and nothing else. -/
theorem sum_reset (n : Link C) (c : C) : n.reset.sum c + (n.rx c).lcrdv.toNat + (n.tx c).flitv.toNat = n.sum c := by
  unfold sum outstanding
  show (n.tx c).credits + 0 + 0 + (n.rx c).credits + _ + _ = _
  omega

omit [Fintype C] in
theorem Inv.reset (hi : n.Inv src c) : n.reset.Inv src c where
  sum_le := by
    have hsum := hi.sum_le
    have hlost := sum_reset n c
    omega
  quiet := fun _ => ⟨rfl, rfl⟩

omit [Fintype C] in
theorem inv_init : ({} : Link C).Inv src c where
  sum_le := by
    show 0 + 0 + 0 + maxCredits ≤ maxCredits
    omega
  quiet := fun _ => ⟨rfl, rfl⟩

variable [DecidableEq C] {a : Act C}

/-- What a step can do: a clock edge, a reset, or something that is not about credits. -/
theorem step_cases (h : step src n a = some n') :
    (∃ before, a = .tick before ∧ n' = n.tick src before) ∨ (a = .reset ∧ n' = n.reset) ∨ n.SameCredits n' := by
  cases a with
  | tick before =>
    simp only [step] at h
    split at h
    · exact .inl ⟨before, rfl, (Option.some.inj h).symm⟩
    · obtain rfl := Option.some.inj h
      exact .inr (.inr ⟨fun _ => rfl, fun _ => rfl, fun _ => rfl, fun _ => rfl, fun _ => rfl⟩)
  | reset =>
    simp only [step] at h
    split at h
    · exact .inr (.inl ⟨rfl, (Option.some.inj h).symm⟩)
    · cases h
  | release =>
    simp only [step] at h
    split at h
    · cases h
    · obtain rfl := Option.some.inj h
      exact .inr (.inr ⟨fun _ => rfl, fun _ => rfl, fun _ => rfl, fun _ => rfl, fun _ => rfl⟩)
  | process d k =>
    simp only [step] at h
    split at h
    · obtain rfl := Option.some.inj h
      refine .inr (.inr ⟨fun c => ?_, fun c => ?_, fun _ => rfl, fun _ => rfl, fun _ => rfl⟩) <;>
        by_cases hc : c = d
      · subst hc
        simp
      · simp [hc]
      · subst hc
        simp
      · simp [hc]
    · cases h
  | getNext d =>
    simp only [step] at h
    split at h
    · obtain rfl := Option.some.inj h
      refine .inr (.inr ⟨fun _ => rfl, fun _ => rfl, fun c => ?_, fun c => ?_, fun _ => rfl⟩) <;>
        by_cases hc : c = d
      · subst hc
        simp
      · simp [hc]
      · subst hc
        simp
      · simp [hc]
    · cases h
  | setState p l =>
    simp only [step] at h
    obtain rfl := Option.some.inj h
    refine .inr (.inr ⟨fun _ => rfl, fun _ => rfl, fun _ => rfl, fun _ => rfl, fun s => ?_⟩)
    have hreq : ∀ q, (Function.update n.port p { n.port p with state := l } q).txlinkactivereq = (n.port q).txlinkactivereq := fun q => by
      by_cases hq : q = p
      · subst hq
        simp
      · simp [hq]
    have hack : ∀ q, (Function.update n.port p { n.port p with state := l } q).rxlinkactiveack = (n.port q).rxlinkactiveack := fun q => by
      by_cases hq : q = p
      · subst hq
        simp
      · simp [hq]
    show getLinkState _ _ = getLinkState _ _
    rw [hreq, hack]

theorem Inv.step (hi : n.Inv src c) (h : step src n a = some n') : n'.Inv src c := by
  rcases step_cases h with ⟨before, -, rfl⟩ | ⟨-, rfl⟩ | hsame
  · exact hi.tick
  · exact hi.reset
  · exact hsame.inv hi

/-- A reset that finds nothing on the wires. -/
def QuietReset (n : Link C) (a : Act C) : Prop := a = .reset → ∀ c, n.Quiet c

/-- **Without a reset that finds something on the wires, no credit is lost.** -/
theorem sum_step (hi : n.Inv src c) (hq : n.QuietReset a) (h : step src n a = some n') : n'.sum c = n.sum c := by
  rcases step_cases h with ⟨before, -, rfl⟩ | ⟨ha, rfl⟩ | hsame
  · exact sum_tick hi.quiet
  · have hlost := sum_reset n c
    rw [(hq ha c).1, (hq ha c).2] at hlost
    exact hlost
  · exact hsame.sum c

theorem inv_of_reach (h : Reach (step src) anyStep ({} : Link C) n) (c : C) : n.Inv src c :=
  h.invariant (I := fun n => n.Inv src c) inv_init fun hi _ hs => hi.step hs

theorem sum_of_reach (hi : n.Inv src c) (h : Reach (step src) QuietReset n n') : n'.sum c = n.sum c :=
  (h.invariant (I := fun n' => n'.Inv src c ∧ n'.sum c = n.sum c) ⟨hi, rfl⟩
    fun hi hq hs => ⟨hi.1.step hs, (sum_step hi.1 hq hs).trans hi.2⟩).2

/-- What a clock edge does with the credits of a channel, after any run. -/
structure CreditStep (src : C → Side) (n : Link C) (before : C → Bool) (c : C) : Prop where
  /-- A flit is transmitted only when a credit is held, which is spent on it. -/
  spent : n.stateFrom (src c) ≠ .stop → ((n.tick src before).tx c).flitv = true →
    ((n.tick src before).tx c).credits + 1 = (n.tx c).credits + (n.rx c).lcrdv.toNat
  /-- When the link stops, all the credits are back. -/
  drained : n.stateFrom (src c) ≠ .stop → (n.tick src before).stateFrom (src c) = .stop → (n.tick src before).Drained c
  /-- They are still there after any further run whose resets find nothing on the wires. -/
  available : n.stateFrom (src c) ≠ .stop → (n.tick src before).stateFrom (src c) = .stop →
    ∀ n', Reach (step src) QuietReset (n.tick src before) n' → n'.sum c = maxCredits

/-- What holds of a channel after any run. -/
structure Credits (src : C → Side) (n : Link C) (c : C) : Prop where
  /-- The credits that are held, on the wires, spent on a flit on the wires or left with the receiver. -/
  sum_le : (n.tx c).credits + (n.rx c).lcrdv.toNat + (n.tx c).flitv.toNat + (n.rx c).credits ≤ maxCredits
  /-- The receiver has granted the credit of a flit that comes. -/
  granted : (n.tx c).flitv = true → (n.rx c).credits < maxCredits
  edge : ∀ before, n.CreditStep src before c

/-- **Link credits are conserved**: in every run, whatever is reset, activated or deactivated when; and without a
reset that finds something on the wires, all of them are always there. -/
theorem credits_of_reach (h : Reach (step src) anyStep ({} : Link C) n) :
    (∀ c, n.Credits src c) ∧ (Reach (step src) QuietReset ({} : Link C) n → ∀ c, n.sum c = maxCredits) := by
  constructor
  · intro c
    have hi := inv_of_reach h c
    have hsum : (n.tx c).credits + (n.rx c).lcrdv.toNat + (n.tx c).flitv.toNat + (n.rx c).credits ≤ maxCredits := hi.sum_le
    have hdrained : ∀ before, n.stateFrom (src c) ≠ .stop → (n.tick src before).stateFrom (src c) = .stop →
        (n.tick src before).Drained c := fun before hst hstop => by
      rcases deactivate_of_stop hstop with hs | ⟨hd, hall⟩
      · exact absurd hs hst
      · exact drained_of_stop hi hd hall
    refine ⟨hsum, fun hf => ?_, fun before => ⟨fun hst hf => ?_, hdrained before, fun hst hstop n' hr => ?_⟩⟩
    · rw [hf, Bool.toNat_true] at hsum
      omega
    · have ht := TxChannel.tick_credits (n.tx c) (n.rx c).lcrdv hst
      have hf' : ((n.tx c).tick (n.stateFrom (src c)) (n.rx c).lcrdv).flitv = true := hf
      rw [hf', Bool.toNat_true] at ht
      exact ht
    · obtain ⟨ho, hr'⟩ := hdrained before hst hstop
      rw [sum_of_reach hi.tick hr, sum, ho, hr', Nat.zero_add]
  · intro hq c
    rw [sum_of_reach inv_init hq]
    rfl

end Link

/-! ### A link of one channel -/

/-- A flit is sent once the transmitter has all the credits, and is not taken by anyone. -/
def untakenFlit : List (Link.Act Unit) :=
  List.replicate 18 (.tick fun _ => true) ++ [.process () 0, .tick fun _ => true, .tick fun _ => true, .tick fun _ => true]

theorem exists_untakenFlit : ∃ n, run (Link.step fun _ => Side.left) ({} : Link Unit) untakenFlit = some n ∧
    maxCredits < (n.tx ()).credits + (n.rx ()).lcrdv.toNat + (n.rx ()).queued := by
  have hrun : ((run (Link.step fun _ => Side.left) ({} : Link Unit) untakenFlit).any fun n =>
      decide (maxCredits < (n.tx ()).credits + (n.rx ()).lcrdv.toNat + (n.rx ()).queued)) = true := by decide +kernel
  obtain ⟨n, hn, hlt⟩ := (Option.any_eq_true _ _).1 hrun
  exact ⟨n, hn, of_decide_eq_true hlt⟩

theorem credits_untakenFlit : ∃ n : Link Unit, run (Link.step fun _ => Side.left) {} untakenFlit = some n ∧
    (∀ c, n.Credits (fun _ => Side.left) c) ∧ (Reach (Link.step fun _ => Side.left) Link.QuietReset {} n → ∀ c, n.sum c = maxCredits) := by
  obtain ⟨n, hn, -⟩ := exists_untakenFlit
  exact ⟨n, hn, Link.credits_of_reach (reach_of_run hn)⟩

/-- **With the flits that wait at the receiver there are more than there are credits**: the transmitter has all of
them again while the flit has not been taken. -/
theorem queued_exceeds : ∃ n, Reach (Link.step fun _ : Unit => Side.left) anyStep ({} : Link Unit) n ∧
    maxCredits < (n.tx ()).credits + (n.rx ()).lcrdv.toNat + (n.rx ()).queued := by
  obtain ⟨n, hn, hlt⟩ := exists_untakenFlit
  exact ⟨n, reach_of_run hn, hlt⟩

end LibSystemCTLM.Chi
