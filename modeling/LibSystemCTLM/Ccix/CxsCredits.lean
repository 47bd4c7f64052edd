import LibSystemCTLM.Ccix.CxsLink
import LibSystemCTLM.Chi.Credits

/-!
# The credits of a CXS link

A credit is with the transmitter, on its way to it or back, spent on a flit on the wires, or with the receiver; a clock
edge moves it from one to the next (`sum_tick`). A reset does not give the credits back: it loses what is on the wires,
leaves the transmitter what it has, and does not end a return of a credit. So the credits are conserved along the runs
whose resets find nothing on the wires, and a reset of both sides the credits with the receiver (`cxsCredits_of_run`).
-/

namespace LibSystemCTLM.Ccix.Cxs

open Foundation Chi

namespace TxLink

variable {link : LinkState} {gnt : Bool} {t : TxLink}

theorem setupFlit_credits (link : LinkState) {t : TxLink} (hv : t.txvalid = false) (hr : t.txcrdrtn = false) :
    (setupFlit link t).credits + (setupFlit link t).txvalid.toNat + (setupFlit link t).txcrdrtn.toNat = t.credits ∧
      ((setupFlit link t).txvalid = false ∨ (setupFlit link t).txcrdrtn = false) := by
  unfold setupFlit
  split
  · split_ifs
    · refine ⟨?_, .inr hr⟩
      simp only [hr, Bool.toNat_true, Bool.toNat_false]
      omega
    · exact ⟨by rw [hv, hr]; rfl, .inl hv⟩
  · split_ifs
    · refine ⟨?_, .inl hv⟩
      simp only [hv, Bool.toNat_true, Bool.toNat_false]
      omega
    · exact ⟨by rw [hv, hr]; rfl, .inl hv⟩

/-- The transmitter's credits: those it held, and the one that has come, are held, spent on a flit or returned. -/
theorem tick_credits (t : TxLink) (gnt : Bool) (h : link ≠ .stop) :
    (t.tick link gnt).credits + (t.tick link gnt).txvalid.toNat + (t.tick link gnt).txcrdrtn.toNat = t.credits + gnt.toNat ∧
      ((t.tick link gnt).txvalid = false ∨ (t.tick link gnt).txcrdrtn = false) := by
  have hcollect : (if gnt = true then t.credits + 1 else t.credits) = t.credits + gnt.toNat := by cases gnt <;> rfl
  rw [← hcollect, tick, if_neg h]
  simp only
  split_ifs
  · exact ⟨rfl, .inl rfl⟩
  · exact ⟨rfl, .inl rfl⟩
  · exact setupFlit_credits link rfl rfl
  · exact setupFlit_credits link rfl rfl

theorem tick_stop : t.tick .stop gnt = t := if_pos rfl

end TxLink

namespace RxLink

variable {link : LinkState} {valid crdrtn : Bool} {r : RxLink}

theorem receive_credits (r : RxLink) (h : valid = false ∨ crdrtn = false) :
    (r.receive valid crdrtn).credits = r.credits + valid.toNat + crdrtn.toNat ∧ (r.receive valid crdrtn).rxcrdgnt = r.rxcrdgnt := by
  cases valid <;> cases crdrtn
  · exact ⟨rfl, rfl⟩
  · exact ⟨rfl, rfl⟩
  · exact ⟨rfl, rfl⟩
  · simp at h

theorem le_receive (valid crdrtn : Bool) (r : RxLink) : r.credits ≤ (r.receive valid crdrtn).credits := by
  cases valid <;> cases crdrtn <;> simp [receive]

theorem grant_credits (h : r.rxcrdgnt = false) : r.grant.credits + r.grant.rxcrdgnt.toNat = r.credits := by
  unfold grant
  split_ifs
  · simp only [Bool.toNat_true]
    omega
  · rw [h, Bool.toNat_false, Nat.add_zero]

/-- The receiver's credits: those it had, and the one that has come back, are kept or granted. -/
theorem tick_credits (r : RxLink) (hlink : link ≠ .stop) (h : valid = false ∨ crdrtn = false) :
    (r.tick link valid crdrtn).credits + (r.tick link valid crdrtn).rxcrdgnt.toNat = r.credits + valid.toNat + crdrtn.toNat := by
  obtain ⟨hc, hg⟩ := receive_credits { r with rxcrdgnt := false } h
  rw [tick, if_neg hlink]
  simp only
  split_ifs
  · rw [hc, hg]
    rfl
  · rw [grant_credits hg, hc]

theorem tick_stop : r.tick .stop valid crdrtn = { r with rxcrdgnt := false } := by rw [tick, if_pos rfl]

theorem rxcrdgnt_of_deactivate : (r.tick .deactivate valid crdrtn).rxcrdgnt = false := by
  cases valid <;> cases crdrtn <;> rfl

end RxLink

namespace PortState

variable {rxState txState : LinkState} {deactivated : Bool} {p : PortState}

theorem txTick_ack (txState : LinkState) (p : PortState) : (txTick txState p).rxactiveack = p.rxactiveack := by
  unfold txTick
  split
  · split_ifs <;> rfl
  · split_ifs <;> rfl
  · rfl

/-- Only a deactivation withdraws the acknowledgement, and only when it is complete. -/
theorem ack_of_tick (h : (p.tick rxState txState deactivated).rxactiveack = false) :
    p.rxactiveack = false ∧ rxState ≠ .activate ∨ rxState = .deactivate ∧ deactivated = true := by
  rw [tick, txTick_ack] at h
  cases rxState with
  | activate => cases h
  | deactivate =>
    cases deactivated with
    | true => exact .inr ⟨rfl, rfl⟩
    | false => exact .inl ⟨h, by decide⟩
  | run => exact .inl ⟨h, by decide⟩
  | stop => exact .inl ⟨h, by decide⟩

theorem req_of_activate : (p.tick rxState .activate deactivated).txactivereq = p.txactivereq := by
  cases rxState <;> rfl

end PortState

namespace Link

variable {n n' : Link} {s d : Side} {before : Side → Bool}

/-! ### The property -/

/-- All the credits of the link that `d` transmits on. -/
def sum (n : Link) (d : Side) : ℕ :=
  (n.tx d).credits + (n.tx d).txvalid.toNat + (n.tx d).txcrdrtn.toNat + (n.rx d.peer).rxcrdgnt.toNat + (n.rx d.peer).credits

/-- Neither a flit nor a credit is on the wires. -/
structure Quiet (n : Link) (d : Side) : Prop where
  txvalid : (n.tx d).txvalid = false
  txcrdrtn : (n.tx d).txcrdrtn = false
  rxcrdgnt : (n.rx d.peer).rxcrdgnt = false

/-- All the credits are with the receiver. -/
def Drained (n : Link) (d : Side) : Prop := (n.rx d.peer).credits = maxCredits

/-- **The credits of a link are right.** -/
structure CreditsRight (n : Link) (d : Side) : Prop where
  sum : n.sum d = maxCredits
  /-- A flit is sent with a credit, which is spent on it. -/
  spent : ∀ before, n.resetn d = true → n.stateFrom d ≠ .stop → ((n.tick before).tx d).txvalid = true →
    ((n.tick before).tx d).credits + 1 = (n.tx d).credits + (n.rx d.peer).rxcrdgnt.toNat
  /-- A deactivation ends with all the credits at the receiver. -/
  stopped : ∀ before, n.stateFrom d ≠ .stop → (n.tick before).stateFrom d = .stop → (n.tick before).Drained d
  /-- And so does a reset of both sides. -/
  reset : n.resetn d = false → n.resetn d.peer = false → n.Drained d
  /-- From there a flit that waits is sent within three clock edges, once the sides are not in reset and want to run. -/
  transmits : ∀ before before' before'', n.stateFrom d = .stop → n.Drained d → n.resetn d = true → n.resetn d.peer = true →
    (n.port d).state = .run → TxLink.dropDone (n.tx d).tlpList ≠ [] →
      ((((n.tick before).tick before').tick before'').tx d).txvalid = true

/-- A reset finds nothing on the wires of the link, and the credits with its receiver if the other side is in reset. -/
def Fair (d : Side) (n : Link) : Act → Prop
  | .reset s => n.Quiet d ∧ (n.resetn s.peer = false → n.Drained d)
  | _ => True

/-! ### A clock edge -/

/-- What holds of a link along a run. -/
structure Inv (n : Link) (d : Side) : Prop where
  sum : n.sum d = maxCredits
  apart : (n.tx d).txvalid = false ∨ (n.tx d).txcrdrtn = false
  stop : n.stateFrom d = .stop → n.Quiet d
  txReset : n.resetn d = false → (n.port d).txactivereq = false ∧ n.Quiet d
  rxReset : n.resetn d.peer = false → (n.port d.peer).rxactiveack = false ∧ n.Quiet d
  reset : n.resetn d = false → n.resetn d.peer = false → n.Drained d

theorem state_of_txReset (h : (n.port d).txactivereq = false) : n.stateFrom d = .stop ∨ n.stateFrom d = .deactivate := by
  rw [stateFrom, h]
  cases (n.port d.peer).rxactiveack
  · exact .inl rfl
  · exact .inr rfl

theorem state_of_rxReset (h : (n.port d.peer).rxactiveack = false) : n.stateFrom d = .stop ∨ n.stateFrom d = .activate := by
  rw [stateFrom, h]
  cases (n.port d).txactivereq
  · exact .inl rfl
  · exact .inr rfl

theorem txTick_of_resetn (h : n.resetn s = true) : n.txTick s = (n.tx s).tick (n.stateFrom s) (n.rx s.peer).rxcrdgnt := if_pos h

theorem txTick_of_reset (h : n.resetn s = false) : n.txTick s = n.tx s := by simp [txTick, h]

theorem rxTick_of_resetn (h : n.resetn d.peer = true) :
    n.rxTick d.peer = (n.rx d.peer).tick (n.stateFrom d) (n.tx d).txvalid (n.tx d).txcrdrtn := by
  rw [rxTick, if_pos h, Side.peer_peer]

theorem rxTick_of_reset (h : n.resetn s = false) : n.rxTick s = n.rx s := by simp [rxTick, h]

theorem txTick_credits (hi : n.Inv d) :
    (n.txTick d).credits + (n.txTick d).txvalid.toNat + (n.txTick d).txcrdrtn.toNat = (n.tx d).credits + (n.rx d.peer).rxcrdgnt.toNat ∧
      ((n.txTick d).txvalid = false ∨ (n.txTick d).txcrdrtn = false) := by
  have hstays : n.Quiet d → (n.tx d).credits + (n.tx d).txvalid.toNat + (n.tx d).txcrdrtn.toNat = (n.tx d).credits + (n.rx d.peer).rxcrdgnt.toNat ∧
      ((n.tx d).txvalid = false ∨ (n.tx d).txcrdrtn = false) := by
    intro hq
    rw [hq.txvalid, hq.txcrdrtn, hq.rxcrdgnt]
    exact ⟨rfl, .inl rfl⟩
  cases hr : n.resetn d with
  | false =>
    rw [txTick_of_reset hr]
    exact hstays (hi.txReset hr).2
  | true =>
    rw [txTick_of_resetn hr]
    by_cases hst : n.stateFrom d = .stop
    · rw [hst, TxLink.tick_stop]
      exact hstays (hi.stop hst)
    · exact TxLink.tick_credits _ _ hst

theorem rxTick_credits (hi : n.Inv d) :
    (n.rxTick d.peer).credits + (n.rxTick d.peer).rxcrdgnt.toNat = (n.rx d.peer).credits + (n.tx d).txvalid.toNat + (n.tx d).txcrdrtn.toNat := by
  cases hr : n.resetn d.peer with
  | false =>
    have hq := (hi.rxReset hr).2
    rw [rxTick_of_reset hr, hq.txvalid, hq.txcrdrtn, hq.rxcrdgnt]
    rfl
  | true =>
    rw [rxTick_of_resetn hr]
    by_cases hst : n.stateFrom d = .stop
    · have hq := hi.stop hst
      rw [hst, RxLink.tick_stop, hq.txvalid, hq.txcrdrtn]
      rfl
    · exact RxLink.tick_credits _ hst hi.apart

/-- **A clock edge moves credits**, and neither makes nor loses any. -/
theorem sum_tick (hi : n.Inv d) : (n.tick before).sum d = maxCredits := by
  have ht := (txTick_credits hi).1
  have hr := rxTick_credits hi
  have hsum := hi.sum
  rw [sum] at hsum ⊢
  change (n.txTick d).credits + (n.txTick d).txvalid.toNat + (n.txTick d).txcrdrtn.toNat + (n.rxTick d.peer).rxcrdgnt.toNat +
    (n.rxTick d.peer).credits = maxCredits
  omega

theorem quiet_of_drained (hsum : n.sum d = maxCredits) (h : n.Drained d) : n.Quiet d ∧ (n.tx d).credits = 0 := by
  rw [sum, show (n.rx d.peer).credits = maxCredits from h] at hsum
  refine ⟨⟨?_, ?_, ?_⟩, by omega⟩
  · exact Bool.toNat_eq_zero.1 (by omega)
  · exact Bool.toNat_eq_zero.1 (by omega)
  · exact Bool.toNat_eq_zero.1 (by omega)

/-- A link comes to a stop only from its deactivation, and only with the receiver deactivated. -/
theorem deactivate_of_stop (hi : n.Inv d) (h : (n.tick before).stateFrom d = .stop) :
    n.stateFrom d = .stop ∨ n.stateFrom d = .deactivate ∧ n.resetn d.peer = true ∧ n.rxLinkDeactivated before d.peer = true := by
  obtain ⟨hreq, hack⟩ := getLinkState_eq_stop.1 h
  change (n.portTick before d).txactivereq = false at hreq
  change (n.portTick before d.peer).rxactiveack = false at hack
  -- an activation goes on, whether the transmitter is in reset or not
  have hnot : n.stateFrom d ≠ .activate := by
    intro hact
    obtain ⟨hreq', -⟩ := getLinkState_eq_activate.1 hact
    cases hr : n.resetn d with
    | false =>
      rw [(hi.txReset hr).1] at hreq'
      cases hreq'
    | true =>
      rw [portTick, if_pos hr, hact, PortState.req_of_activate, hreq'] at hreq
      cases hreq
  cases hr : n.resetn d.peer with
  | false =>
    rcases state_of_rxReset (hi.rxReset hr).1 with hst | hact
    · exact .inl hst
    · exact absurd hact hnot
  | true =>
    rw [portTick, if_pos hr, Side.peer_peer] at hack
    rcases PortState.ack_of_tick hack with ⟨hlow, -⟩ | ⟨hd, hall⟩
    · left
      have hno : (n.port d).txactivereq = false := by
        by_contra hreq'
        exact hnot (getLinkState_eq_activate.2 ⟨by simpa using hreq', hlow⟩)
      exact getLinkState_eq_stop.2 ⟨hno, hlow⟩
    · exact .inr ⟨hd, rfl, hall⟩

/-- **A deactivation is complete only with all the credits back**, whether `rx_thread` has run before `state_thread` or
not. -/
theorem drained_of_stop (hi : n.Inv d) (hd : n.stateFrom d = .deactivate) (hr : n.resetn d.peer = true)
    (hall : n.rxLinkDeactivated before d.peer = true) : (n.tick before).Drained d := by
  have hrx := of_decide_eq_true hall
  cases hb : before d.peer with
  | true =>
    rw [hb, if_pos rfl] at hrx
    exact hrx
  | false =>
    rw [hb, if_neg (by decide)] at hrx
    obtain ⟨hq, -⟩ := quiet_of_drained hi.sum hrx
    have hmoved := rxTick_credits hi
    have hlow : (n.rxTick d.peer).rxcrdgnt = false := by
      rw [rxTick_of_resetn hr, hd, RxLink.rxcrdgnt_of_deactivate]
    rw [hlow, hq.txvalid, hq.txcrdrtn, hrx] at hmoved
    exact hmoved

theorem quiet_tick_of_txReset (hi : n.Inv d) (h : n.resetn d = false) : (n.tick before).Quiet d := by
  obtain ⟨hreq, hq⟩ := hi.txReset h
  refine ⟨?_, ?_, ?_⟩
  · exact (congrArg TxLink.txvalid (txTick_of_reset h)).trans hq.txvalid
  · exact (congrArg TxLink.txcrdrtn (txTick_of_reset h)).trans hq.txcrdrtn
  · change (n.rxTick d.peer).rxcrdgnt = false
    cases hr : n.resetn d.peer with
    | false => rw [rxTick_of_reset hr, hq.rxcrdgnt]
    | true =>
      rw [rxTick_of_resetn hr]
      rcases state_of_txReset hreq with hst | hst
      · rw [hst, RxLink.tick_stop]
      · rw [hst, RxLink.rxcrdgnt_of_deactivate]

theorem quiet_tick_of_rxReset (hi : n.Inv d) (h : n.resetn d.peer = false) : (n.tick before).Quiet d := by
  obtain ⟨hack, hq⟩ := hi.rxReset h
  have hrx : ((n.tick before).rx d.peer).rxcrdgnt = false := (congrArg RxLink.rxcrdgnt (rxTick_of_reset h)).trans hq.rxcrdgnt
  cases hr : n.resetn d with
  | false => exact ⟨(congrArg TxLink.txvalid (txTick_of_reset hr)).trans hq.txvalid, (congrArg TxLink.txcrdrtn (txTick_of_reset hr)).trans hq.txcrdrtn, hrx⟩
  | true =>
    have htx : (n.tick before).tx d = _ := txTick_of_resetn hr
    rcases state_of_rxReset hack with hst | hst
    · rw [hst, TxLink.tick_stop] at htx
      exact ⟨by rw [htx, hq.txvalid], by rw [htx, hq.txcrdrtn], hrx⟩
    · rw [hst] at htx
      exact ⟨by rw [htx]; rfl, by rw [htx]; rfl, hrx⟩

theorem Inv.tick (hi : n.Inv d) : (n.tick before).Inv d where
  sum := sum_tick hi
  apart := (txTick_credits hi).2
  stop hstop := by
    rcases deactivate_of_stop hi hstop with hst | ⟨hd, hr, hall⟩
    · obtain ⟨hv, hc, hg⟩ := hi.stop hst
      cases ht : n.resetn d with
      | false => exact quiet_tick_of_txReset hi ht
      | true =>
        cases hr : n.resetn d.peer with
        | false => exact quiet_tick_of_rxReset hi hr
        | true =>
          have htx : (n.tick before).tx d = _ := txTick_of_resetn ht
          have hrx : (n.tick before).rx d.peer = _ := rxTick_of_resetn hr
          rw [hst, TxLink.tick_stop] at htx
          rw [hst, RxLink.tick_stop] at hrx
          exact ⟨by rw [htx, hv], by rw [htx, hc], by rw [hrx]⟩
    · exact (quiet_of_drained (sum_tick hi) (drained_of_stop hi hd hr hall)).1
  txReset h := by
    have hport : (n.tick before).port d = n.port d := by
      change n.portTick before d = _
      rw [portTick, show n.resetn d = false from h]
      rfl
    exact ⟨by rw [hport]; exact (hi.txReset h).1, quiet_tick_of_txReset hi h⟩
  rxReset h := by
    have hport : (n.tick before).port d.peer = n.port d.peer := by
      change n.portTick before d.peer = _
      rw [portTick, show n.resetn d.peer = false from h]
      rfl
    exact ⟨by rw [hport]; exact (hi.rxReset h).1, quiet_tick_of_rxReset hi h⟩
  reset h h' := by
    change (n.rxTick d.peer).credits = maxCredits
    rw [rxTick_of_reset (show n.resetn d.peer = false from h')]
    exact hi.reset h h'

/-! ### Runs -/

/-- A step that leaves the credits and the signals of a link, and puts no side in reset. -/
structure SameCredits (n n' : Link) (d : Side) : Prop where
  txCredits : (n'.tx d).credits = (n.tx d).credits
  txvalid : (n'.tx d).txvalid = (n.tx d).txvalid
  txcrdrtn : (n'.tx d).txcrdrtn = (n.tx d).txcrdrtn
  rx : n'.rx d.peer = n.rx d.peer
  req : (n'.port d).txactivereq = (n.port d).txactivereq
  ack : (n'.port d.peer).rxactiveack = (n.port d.peer).rxactiveack
  resetn : ∀ s, n'.resetn s = false → n.resetn s = false

theorem SameCredits.inv (h : n.SameCredits n' d) (hi : n.Inv d) : n'.Inv d := by
  have hquiet : n.Quiet d → n'.Quiet d := fun hq => ⟨h.txvalid.trans hq.txvalid, h.txcrdrtn.trans hq.txcrdrtn, h.rx ▸ hq.rxcrdgnt⟩
  refine ⟨?_, ?_, fun hst => hquiet (hi.stop ?_), fun hr => ?_, fun hr => ?_, fun hr hr' => ?_⟩
  · rw [sum, h.txCredits, h.txvalid, h.txcrdrtn, h.rx]
    exact hi.sum
  · rw [h.txvalid, h.txcrdrtn]
    exact hi.apart
  · rw [stateFrom, h.req, h.ack] at hst
    exact hst
  · obtain ⟨hreq, hq⟩ := hi.txReset (h.resetn d hr)
    exact ⟨h.req.trans hreq, hquiet hq⟩
  · obtain ⟨hack, hq⟩ := hi.rxReset (h.resetn d.peer hr)
    exact ⟨h.ack.trans hack, hquiet hq⟩
  · rw [Drained, h.rx]
    exact hi.reset (h.resetn d hr) (h.resetn d.peer hr')

theorem reset_eq_false (h : (n.reset s).resetn d = false) : d = s ∨ n.resetn d = false := by
  by_cases hd : d = s
  · exact .inl hd
  · exact .inr (by simpa [Link.reset, hd] using h)

theorem Side.eq_or_eq_peer (s d : Side) : d = s ∨ d = s.peer := by cases s <;> cases d <;> decide

/-- **A reset that finds nothing on the wires** loses nothing. -/
theorem Inv.reset_step (hi : n.Inv d) (hfair : n.Quiet d ∧ (n.resetn s.peer = false → n.Drained d)) : (n.reset s).Inv d := by
  obtain ⟨⟨hv, hc, hg⟩, hdrained⟩ := hfair
  have hcredits : ((n.reset s).tx d).credits = (n.tx d).credits ∧ ((n.reset s).rx d.peer).credits = (n.rx d.peer).credits := by
    constructor
    · by_cases hd : d = s <;> simp [Link.reset, hd, TxLink.reset]
    · by_cases hd : d.peer = s <;> simp [Link.reset, hd, RxLink.reset]
  have hquiet : (n.reset s).Quiet d := by
    refine ⟨?_, ?_, ?_⟩
    · by_cases hd : d = s
      · simp [Link.reset, hd, TxLink.reset]
      · simp [Link.reset, hd, hv]
    · by_cases hd : d = s
      · subst hd
        simp [Link.reset, TxLink.reset, hc]
      · simp [Link.reset, hd, hc]
    · by_cases hd : d.peer = s
      · simp [Link.reset, hd, RxLink.reset]
      · simp [Link.reset, hd, hg]
  refine ⟨?_, .inl hquiet.txvalid, fun _ => hquiet, fun hr => ⟨?_, hquiet⟩, fun hr => ⟨?_, hquiet⟩, fun hr hr' => ?_⟩
  · have hsum := hi.sum
    rw [Link.sum, hv, hc, hg] at hsum
    rw [Link.sum, hquiet.txvalid, hquiet.txcrdrtn, hquiet.rxcrdgnt, hcredits.1, hcredits.2]
    exact hsum
  · by_cases hd : d = s
    · simp [Link.reset, hd, PortState.reset]
    · have hr' := (reset_eq_false hr).resolve_left hd
      simp [Link.reset, hd, (hi.txReset hr').1]
  · by_cases hd : d.peer = s
    · simp [Link.reset, hd, PortState.reset]
    · have hr' := (reset_eq_false hr).resolve_left hd
      simp [Link.reset, hd, (hi.rxReset hr').1]
  · -- one of the sides was in reset before, or it is both of them that are reset now
    have hother : n.Drained d := by
      rcases Side.eq_or_eq_peer s d with hd | hd
      · refine hdrained ?_
        rcases reset_eq_false hr' with hp | hp
        · rw [hd] at hp
          cases s <;> cases hp
        · rw [← hd]
          exact hp
      · refine hdrained ?_
        rcases reset_eq_false hr with hp | hp
        · rw [hp] at hd
          cases s <;> cases hd
        · rw [← hd]
          exact hp
    exact hcredits.2.trans hother

theorem inv_init (d : Side) : ({} : Link).Inv d := ⟨rfl, .inl rfl, fun _ => ⟨rfl, rfl, rfl⟩, nofun, nofun, nofun⟩

theorem Inv.step {a : Act} (hi : n.Inv d) (hfair : Fair d n a) (h : n.step a = some n') : n'.Inv d := by
  have hsame : ∀ n', n.SameCredits n' d → n'.Inv d := fun _ h => h.inv hi
  cases a with
  | tick before =>
    cases h
    exact hi.tick
  | reset s =>
    rw [Link.step] at h
    split_ifs at h
    cases h
    exact hi.reset_step hfair
  | release s =>
    rw [Link.step] at h
    split_ifs at h
    cases h
    refine hsame _ ⟨rfl, rfl, rfl, rfl, rfl, rfl, fun q hq => ?_⟩
    by_cases hs : q = s
    · simp [hs] at hq
    · simpa [hs] using hq
  | process s k =>
    cases h
    refine hsame _ ⟨?_, ?_, ?_, rfl, rfl, rfl, fun _ => id⟩
    · by_cases hs : d = s <;> simp [hs]
    · by_cases hs : d = s <;> simp [hs]
    · by_cases hs : d = s <;> simp [hs]
  | setState s l =>
    cases h
    refine hsame _ ⟨rfl, rfl, rfl, rfl, ?_, ?_, fun _ => id⟩
    · by_cases hs : d = s <;> simp [hs]
    · by_cases hs : d.peer = s <;> simp [hs]

/-! ### From a stop on -/

/-- A link that is stopped and to run is asked to be activated. -/
theorem activate_of_stop (hst : n.stateFrom d = .stop) (htx : n.resetn d = true) (hrun : (n.port d).state = .run) :
    (n.tick before).stateFrom d = .activate := by
  obtain ⟨-, hack⟩ := getLinkState_eq_stop.1 hst
  refine getLinkState_eq_activate.2 ⟨?_, ?_⟩
  · change (n.portTick before d).txactivereq = true
    have hstate : ∀ rxState deactivated, (PortState.rxTick rxState .stop deactivated (n.port d)).state = .run := by
      intro rxState deactivated
      cases rxState <;> exact hrun
    rw [portTick, if_pos htx, hst, PortState.tick]
    exact congrArg PortState.txactivereq (if_pos (hstate _ _))
  · change (n.portTick before d.peer).rxactiveack = false
    rw [portTick]
    split_ifs
    · rw [Side.peer_peer, hst, PortState.tick, PortState.txTick_ack]
      exact hack
    · exact hack

theorem run_of_activate (hst : n.stateFrom d = .activate) (htx : n.resetn d = true) (hrx : n.resetn d.peer = true) :
    (n.tick before).stateFrom d = .run := by
  obtain ⟨hreq, -⟩ := getLinkState_eq_activate.1 hst
  have hreq' : (n.portTick before d).txactivereq = true := by rw [portTick, if_pos htx, hst, PortState.req_of_activate, hreq]
  have hack' : (n.portTick before d.peer).rxactiveack = true := by
    rw [portTick, if_pos hrx, Side.peer_peer, hst, PortState.tick, PortState.txTick_ack]
    rfl
  change getLinkState (n.portTick before d).txactivereq (n.portTick before d.peer).rxactiveack = .run
  rw [hreq', hack']
  rfl

/-- With a credit that has come, a flit is sent. -/
theorem txvalid_of_run (hst : n.stateFrom d = .run) (htx : n.resetn d = true) (hgnt : (n.rx d.peer).rxcrdgnt = true)
    (hlist : TxLink.dropDone (n.tx d).tlpList ≠ []) : ((n.tick before).tx d).txvalid = true := by
  change (n.txTick d).txvalid = true
  rw [txTick_of_resetn htx, hst, hgnt, TxLink.tick, if_neg (by decide)]
  simp only [if_true]
  rw [if_neg (by decide), TxLink.setupFlit]
  cases hl : TxLink.dropDone (n.tx d).tlpList with
  | nil => exact absurd hl hlist
  | cons k l => simp

/-- An activation asked for and acknowledged, and a flit with the first credit: three clock edges. -/
theorem transmits_of_drained (before before' before'' : Side → Bool) (hst : n.stateFrom d = .stop) (hd : n.Drained d) (htx : n.resetn d = true)
    (hrx : n.resetn d.peer = true) (hrun : (n.port d).state = .run) (hlist : TxLink.dropDone (n.tx d).tlpList ≠ []) :
    ((((n.tick before).tick before').tick before'').tx d).txvalid = true := by
  have hst₁ : (n.tick before).stateFrom d = .activate := activate_of_stop hst htx hrun
  have hst₂ : ((n.tick before).tick before').stateFrom d = .run := run_of_activate hst₁ htx hrx
  have htx₁ : (n.tick before).tx d = n.tx d := by
    change n.txTick d = _
    rw [txTick_of_resetn htx, hst, TxLink.tick_stop]
  have hrx₁ : ((n.tick before).rx d.peer).credits = maxCredits := by
    change (n.rxTick d.peer).credits = _
    rw [rxTick_of_resetn hrx, hst, RxLink.tick_stop]
    exact hd
  have hlist₂ : (((n.tick before).tick before').tx d).tlpList = (n.tx d).tlpList := by
    change ((n.tick before).txTick d).tlpList = _
    rw [txTick_of_resetn (show (n.tick before).resetn d = true from htx), hst₁, htx₁]
    rfl
  have hgnt₂ : (((n.tick before).tick before').rx d.peer).rxcrdgnt = true := by
    change ((n.tick before).rxTick d.peer).rxcrdgnt = true
    rw [rxTick_of_resetn (show (n.tick before).resetn d.peer = true from hrx), hst₁, RxLink.tick, if_neg (by decide), if_neg (by decide), RxLink.grant]
    have hpos : ({ (n.tick before).rx d.peer with rxcrdgnt := false }.receive ((n.tick before).tx d).txvalid ((n.tick before).tx d).txcrdrtn).credits ≠ 0 := by
      have hle := RxLink.le_receive ((n.tick before).tx d).txvalid ((n.tick before).tx d).txcrdrtn { (n.tick before).rx d.peer with rxcrdgnt := false }
      have hall : 0 < ((n.tick before).rx d.peer).credits := by
        rw [hrx₁]
        decide
      exact Nat.ne_of_gt (lt_of_lt_of_le hall hle)
    rw [if_pos hpos]
  exact txvalid_of_run hst₂ htx hgnt₂ (by rw [hlist₂]; exact hlist)

/-- **The credits of a link are right along every run** whose resets are fair to it. -/
theorem cxsCredits_of_run (d : Side) (h : Reach Link.step (Fair d) ({} : Link) n) : n.CreditsRight d := by
  have hi : n.Inv d := h.invariant (I := fun n => n.Inv d) (inv_init d) fun hi hfair hs => hi.step hfair hs
  refine ⟨hi.sum, fun before htx hst hv => ?_, fun before hst hstop => ?_, hi.reset, fun b b' b'' hst hd htx hrx hrun hlist => ?_⟩
  · have ht := (TxLink.tick_credits (n.tx d) (n.rx d.peer).rxcrdgnt hst)
    rw [← txTick_of_resetn htx] at ht
    have hv' : (n.txTick d).txvalid = true := hv
    have hc : (n.txTick d).txcrdrtn = false := ht.2.resolve_left (by rw [hv']; decide)
    have hcredits := ht.1
    rw [hv', hc] at hcredits
    exact hcredits
  · rcases deactivate_of_stop hi hstop with hs | ⟨hd, hr, hall⟩
    · exact absurd hs hst
    · exact drained_of_stop hi hd hr hall
  · exact transmits_of_drained b b' b'' hst hd htx hrx hrun hlist

instance (n : Link) (d : Side) : Decidable (n.Quiet d) :=
  decidable_of_iff ((n.tx d).txvalid = false ∧ (n.tx d).txcrdrtn = false ∧ (n.rx d.peer).rxcrdgnt = false)
    ⟨fun ⟨h, h', h''⟩ => ⟨h, h', h''⟩, fun ⟨h, h', h''⟩ => ⟨h, h', h''⟩⟩

instance (n : Link) (d : Side) : Decidable (n.Drained d) := inferInstanceAs (Decidable (_ = _))

instance (d : Side) (n : Link) : ∀ a, Decidable (Fair d n a)
  | .reset s => inferInstanceAs (Decidable (n.Quiet d ∧ (n.resetn s.peer = false → n.Drained d)))
  | .tick _ | .release _ | .process _ _ | .setState _ _ => isTrue trivial

/-- A clock edge at which `rx_thread` runs first. -/
def edge : Act := .tick fun _ => true

/-- Both sides are reset, and a TLP of a flit is sent. -/
theorem cxsCredits_sent : ∃ n, run Link.step {} [.reset .left, .reset .right, .release .left, .release .right, .process .left 0, edge, edge, edge] = some n ∧
    (n.tx .left).txvalid = true ∧ n.CreditsRight .left := by
  have hok : RunOk Link.step (Fair .left) {} [.reset .left, .reset .right, .release .left, .release .right, .process .left 0, edge, edge, edge] := by decide
  exact ⟨_, rfl, by decide, cxsCredits_of_run .left (Reach.refl.of_run hok rfl)⟩

/-- The credits that were granted are not with the receiver when both sides are reset. -/
theorem not_creditsRight_reset : ∃ n, run Link.step {} [edge, edge, edge, .reset .left, .reset .right] = some n ∧ ¬n.CreditsRight .left :=
  ⟨_, rfl, fun h => absurd (h.reset rfl rfl) (by decide)⟩

end Link

end LibSystemCTLM.Ccix.Cxs
