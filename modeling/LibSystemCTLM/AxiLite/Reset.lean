import LibSystemCTLM.AxiLite.DataLanes
import LibSystemCTLM.Foundation.Runs

/-!
# A reset of `tlm2axilite_bridge`

Where the pointer to a transaction is between the threads of the bridge, and who ends the call of `b_transport` it belongs to,
with a reset at any time (`tlm2axilite-bridge.h`).

## The model

What a thread does between two waits is one step. At the falling edge of `resetn` the `reset` thread has yet to clear the fifos,
and the other threads may come first. The mutex lets one call at a time in; the others are told of an error while `resetn` is low.
The slave answers what it has been asked for, a write when it has the address and the data, and is reset with the bridge.

## What is proved

The call that is in and the one pointer to it go together, so that the threads of a bridge in reset hold none, and what has been
asked for is answered once the reset is over (`recovered_of_reach`), as long as no reset finds a transaction in the hands of
`write_data_phase`, which drops it (`not_recovers_of_reach`), and no read has more bytes than its bus word.

## Honest scope

The bytes are those of `DataLanes`, and no streaming width is zero. A reset lasts until the threads that look at it have seen it.
-/

namespace LibSystemCTLM.AxiLite.Reset

open Foundation

/-- What `b_transport` is asked for: `lane` is the address in its bus word. -/
structure Request where
  read : Bool
  len : ℕ
  lane : ℕ
  deriving DecidableEq

/-- A call of `b_transport`, with its number in place of the pointer. -/
structure Call extends Request where
  serial : ℕ
  deriving DecidableEq

/-- A response of AXI4-Lite. -/
inductive Resp where
  | okay | slverr | decerr
  deriving DecidableEq

/-- How a call ends. -/
inductive Outcome where
  | rejected | aborted | answered (r : Resp)
  deriving DecidableEq

/-- A thread: at its top, at a wait with a transaction, or in `wait_for_reset_release`. -/
inductive Pc where
  | idle | busy (c : Call) | held
  deriving DecidableEq

structure State where
  resetn : Bool := true
  /-- The `reset` thread has not run since the edge. -/
  clearing : Bool := false
  /-- The call that has the mutex and waits for its `DoneEvent`. -/
  current : Option Call := none
  rdTransFifo : List Call := []
  /-- `read_address_phase`, busy with its address on the bus. -/
  rdAddr : Pc := .idle
  rdResponses : List Call := []
  /-- `read_resp_phase`, busy with a transaction that has bytes left. -/
  rdResp : Pc := .idle
  wrTransFifo : List Call := []
  /-- `write_address_phase`. The call is that of the address on the bus: the thread has set its pointer to `NULL`. -/
  wrAddr : Pc := .idle
  wrDataFifo : List Call := []
  /-- `write_data_phase`, busy with data on the bus. -/
  wrData : Pc := .idle
  wrResponses : List Call := []
  /-- `write_resp_phase` is in `wait_for_reset_release`. -/
  wrRespHeld : Bool := false
  /-- What the slave has taken and not answered: read addresses, write addresses and data. -/
  ar : Option Call := none
  aw : Option Call := none
  w : Option Call := none
  given : List (Call × Resp) := []
  done : List (Call × Outcome) := []
  next : ℕ := 0
  /-- The call that was in at the last reset. -/
  atReset : Option Call := none
  failed : Bool := false
  deriving DecidableEq

/-- What happens next. -/
inductive Event where
  | call (q : Request)
  | takeRd | arready | rbeat (r : Resp) | abortRdAddr | abortRdResp
  | takeWr | awready | takeData | wready | bresp (r : Resp) | abortWrAddr | abortWrData | abortWrResp
  | fall | clear | rise | resume
  deriving DecidableEq

variable (cfg : Config)

/-- `Validate`. -/
def Request.valid (q : Request) : Bool := decide (q.len ≠ 0) && decide (q.len ≤ cfg.busBytes)

/-- The read is in its bus word. -/
def Request.InWord (q : Request) : Prop := q.lane + q.len ≤ cfg.busBytes

instance (q : Request) : Decidable (q.InWord cfg) := inferInstanceAs (Decidable (_ ≤ _))

/-- `DoneEvent` is notified: the call returns, and gives the mutex back. -/
def State.finish (s : State) (c : Call) (o : Outcome) : State := { s with current := none, done := s.done ++ [(c, o)] }

/-- `tlm2axi_clear_fifo`. -/
def State.abortAll (s : State) (cs : List Call) : State := cs.foldl (fun s c => s.finish c .aborted) s

/-- The threads that look at a reset have seen it. -/
def State.settled (s : State) : Bool :=
  !s.clearing && (match s.rdAddr with | .busy _ => false | _ => true) && decide (s.rdResp = .held) &&
    (match s.wrAddr with | .busy _ => false | _ => true) && (match s.wrData with | .busy _ => false | _ => true) && s.wrRespHeld

/-- One step. -/
def step (s : State) : Event → Option State
  | .call q =>
    if s.current ≠ none then none
    else
      let c : Call := { q with serial := s.next }
      if s.resetn = true ∧ q.valid cfg = true then
        if q.read = true then some { s with current := some c, rdTransFifo := s.rdTransFifo ++ [c], next := s.next + 1 }
        else some { s with current := some c, wrTransFifo := s.wrTransFifo ++ [c], next := s.next + 1 }
      else some { s with done := s.done ++ [(c, .rejected)], next := s.next + 1 }
  | .takeRd =>
    match s.rdAddr, s.rdTransFifo with
    | .idle, c :: rest =>
      if s.resetn = true then some { s with rdAddr := .busy c, rdTransFifo := rest }
      else some ({ s with rdAddr := .held, rdTransFifo := rest }.finish c .aborted)
    | _, _ => none
  | .arready =>
    match s.rdAddr with
    | .busy c => if s.resetn = true then some { s with rdAddr := .idle, rdResponses := s.rdResponses ++ [c], ar := some c } else none
    | _ => none
  | .rbeat r =>
    match s.rdResp, s.ar, s.rdResponses with
    | .idle, some asked, c :: rest =>
      if s.resetn = false then none
      else
        let s := { s with ar := none, rdResponses := rest, given := s.given ++ [(asked, r)] }
        -- with bytes left the loop waits for one more beat
        if c.InWord cfg then some (s.finish c (.answered r)) else some { s with rdResp := .busy c }
    | _, _, _ => none
  | .abortRdAddr =>
    match s.rdAddr with
    | .busy c => if s.resetn = false then some ({ s with rdAddr := .held }.finish c .aborted) else none
    | _ => none
  | .abortRdResp =>
    if s.resetn = true then none
    else
      match s.rdResp with
      | .idle => some { s with rdResp := .held }
      -- `assert(tr == NULL)`
      | .busy _ => some { s with rdResp := .held, failed := true }
      | .held => none
  | .takeWr =>
    match s.wrAddr, s.wrTransFifo with
    | .idle, c :: rest =>
      if s.resetn = true then some { s with wrAddr := .busy c, wrTransFifo := rest, wrDataFifo := s.wrDataFifo ++ [c] }
      else some ({ s with wrAddr := .held, wrTransFifo := rest }.finish c .aborted)
    | _, _ => none
  | .awready =>
    match s.wrAddr with
    | .busy c => if s.resetn = true then some { s with wrAddr := .idle, aw := some c } else none
    | _ => none
  | .takeData =>
    match s.wrData, s.wrDataFifo with
    | .idle, c :: rest => some { s with wrData := .busy c, wrDataFifo := rest }
    | _, _ => none
  | .wready =>
    match s.wrData with
    | .busy c => if s.resetn = true then some { s with wrData := .idle, wrResponses := s.wrResponses ++ [c], w := some c } else none
    | _ => none
  | .bresp r =>
    match s.aw, s.w, s.wrResponses with
    | some asked, some _, c :: rest =>
      if s.resetn = false ∨ s.wrRespHeld = true then none
      else some ({ s with aw := none, w := none, wrResponses := rest, given := s.given ++ [(asked, r)] }.finish c (.answered r))
    | _, _, _ => none
  | .abortWrAddr =>
    match s.wrAddr with
    | .busy _ => if s.resetn = false then some { s with wrAddr := .held } else none
    | _ => none
  | .abortWrData =>
    match s.wrData with
    -- nothing is done about the transaction
    | .busy _ => if s.resetn = false then some { s with wrData := .held } else none
    | _ => none
  | .abortWrResp => if s.resetn = false ∧ s.wrRespHeld = false then some { s with wrRespHeld := true } else none
  | .fall =>
    if s.resetn = true then some { s with resetn := false, clearing := true, ar := none, aw := none, w := none, atReset := s.current } else none
  | .clear =>
    if s.clearing = true then
      some ({ s with clearing := false, rdTransFifo := [], wrTransFifo := [], rdResponses := [], wrDataFifo := [], wrResponses := [] }.abortAll
        (s.rdTransFifo ++ s.wrTransFifo ++ s.rdResponses ++ s.wrDataFifo ++ s.wrResponses))
    else none
  | .rise => if s.resetn = false ∧ s.settled = true then some { s with resetn := true } else none
  | .resume =>
    if s.resetn = true then
      some { s with
        rdAddr := if s.rdAddr = .held then .idle else s.rdAddr
        rdResp := if s.rdResp = .held then .idle else s.rdResp
        wrAddr := if s.wrAddr = .held then .idle else s.wrAddr
        wrData := if s.wrData = .held then .idle else s.wrData
        wrRespHeld := false }
    else none

/-! ### What is asked of it -/

/-- What a thread has in hand. -/
def Pc.hand : Pc → List Call
  | .busy c => [c]
  | _ => []

/-- The pointers to transactions, in the fifos and the threads. -/
def State.pointers (s : State) : List Call :=
  s.rdTransFifo ++ s.rdAddr.hand ++ s.rdResponses ++ s.rdResp.hand ++ s.wrTransFifo ++ s.wrDataFifo ++ s.wrData.hand ++ s.wrResponses

/-- A step the bridge and its slave take for the call that is in; the slave answers with `r`. -/
def Own (r : Resp) (e : Event) : Prop :=
  e = .takeRd ∨ e = .arready ∨ e = .rbeat r ∨ e = .takeWr ∨ e = .awready ∨ e = .takeData ∨ e = .wready ∨ e = .bresp r ∨ e = .resume

/-- A reset leaves nothing behind. -/
structure Recovers (s : State) : Prop where
  /-- The assertion holds. -/
  failed : s.failed = false
  /-- A pointer is to the call that is in. -/
  pointers : ∀ c ∈ s.pointers, s.current = some c
  /-- In a reset that all threads have seen the mutex is free. -/
  free : s.resetn = false → s.settled = true → s.current = none
  /-- The call that was in has been told of an error. -/
  aborted : s.resetn = true ∨ s.settled = true → ∀ c ∈ s.atReset, (c, .aborted) ∈ s.done
  /-- A call that is told of a response has had that response from the slave. -/
  truth : ∀ c r, (c, .answered r) ∈ s.done → (c, r) ∈ s.given
  /-- Without a reset the call that is in is performed and told of its response. -/
  performed : s.resetn = true → ∀ c ∈ s.current, ∀ r, ∃ es, (∀ e ∈ es, Own r e) ∧
    ∃ s', run (step cfg) s es = some s' ∧ s'.current = none ∧ (c, .answered r) ∈ s'.done

/-- What is asked of a step: a read is in its bus word, and no reset finds `write_data_phase` with a transaction. -/
def StepOk (s : State) : Event → Prop
  | .call q => q.read = true → q.valid cfg = true → q.InWord cfg
  | .fall => s.wrData.hand = []
  | .takeData => s.resetn = true
  | _ => True

instance (s : State) (e : Event) : Decidable (StepOk cfg s e) := by
  unfold StepOk
  split <;> infer_instance

/-! ### Where the pointer is -/

/-- Where a pointer may be. -/
inductive Spot where
  | rdTrans | rdAddr | rdResponses | wrTrans | wrDataFifo | wrData | wrResponses
  deriving DecidableEq

/-- The place of the one pointer, and the call it is of. -/
abbrev Place := Option (Spot × Call)

/-- The pointers at a spot. -/
def here (p : Place) (q : Spot) : List Call :=
  match p with
  | some (r, c) => if r = q then [c] else []
  | none => []

/-- The fifos and the threads have no pointer but this one. -/
structure At (s : State) (p : Place) : Prop where
  rdTransFifo : s.rdTransFifo = here p .rdTrans
  rdAddr : s.rdAddr.hand = here p .rdAddr
  rdResponses : s.rdResponses = here p .rdResponses
  rdResp : s.rdResp.hand = []
  wrTransFifo : s.wrTransFifo = here p .wrTrans
  wrDataFifo : s.wrDataFifo = here p .wrDataFifo
  wrData : s.wrData.hand = here p .wrData
  wrResponses : s.wrResponses = here p .wrResponses

/-- The address of a write is on the bus, or with the slave. -/
def AddrSent (s : State) (c : Call) : Prop := s.wrAddr = .busy c ∧ s.aw = none ∨ s.wrAddr.hand = [] ∧ s.aw = some c

/-- What the slave has been asked for. -/
def Asked (s : State) : Place → Prop
  | none | some (.rdTrans, _) | some (.rdAddr, _) | some (.wrTrans, _) => s.ar = none ∧ s.w = none ∧ s.wrAddr.hand = [] ∧ s.aw = none
  | some (.rdResponses, c) => s.ar = some c ∧ s.w = none ∧ s.wrAddr.hand = [] ∧ s.aw = none
  | some (.wrDataFifo, c) | some (.wrData, c) => s.ar = none ∧ s.w = none ∧ AddrSent s c
  | some (.wrResponses, c) => s.ar = none ∧ s.w = some c ∧ AddrSent s c

/-- What holds of every state of a run. -/
structure Inv (s : State) (p : Place) : Prop where
  place : At s p
  current : s.current = p.map Prod.snd
  failed : s.failed = false
  clearing : s.clearing = true → s.resetn = false
  cleared : s.resetn = false → s.clearing = false → p = none ∨ ∃ c, p = some (.rdAddr, c)
  data : s.resetn = false → s.wrData.hand = []
  asked : s.resetn = true → Asked s p
  reset : s.resetn = false → s.ar = none ∧ s.w = none ∧ s.aw = none
  inWord : ∀ q c, p = some (q, c) → q ∈ [.rdTrans, .rdAddr, .rdResponses] → c.InWord cfg
  atReset : ∀ c ∈ s.atReset, (c, .aborted) ∈ s.done ∨ s.resetn = false ∧ s.current = some c
  truth : ∀ c r, (c, .answered r) ∈ s.done → (c, r) ∈ s.given

variable {cfg : Config} {s s' : State} {p : Place} {c : Call} {rest : List Call}

theorem inv_init : Inv cfg {} none where
  place := ⟨rfl, rfl, rfl, rfl, rfl, rfl, rfl, rfl⟩
  current := rfl
  failed := rfl
  clearing h := Bool.noConfusion h
  cleared h := Bool.noConfusion h
  data h := Bool.noConfusion h
  asked _ := ⟨rfl, rfl, rfl, rfl⟩
  reset h := Bool.noConfusion h
  inWord := by simp
  atReset := by simp
  truth := by simp

theorem place_of_here {q : Spot} {cs : List Call} (hat : cs = here p q) (hcs : cs = c :: rest) : p = some (q, c) ∧ rest = [] := by
  rw [hcs] at hat
  obtain _ | ⟨r, d⟩ := p
  · cases hat
  · by_cases hr : r = q
    · simp_all [here]
    · simp [here, hr] at hat

theorem Pc.hand_eq {a : Pc} (h : a = .busy c) : a.hand = c :: [] := by rw [h, hand]

/-! ### Steps -/

theorem not_both {b : Bool} {P : Prop} (h : b = false) (h' : b = true) : P := by simp [h] at h'

/-- What the ends of calls leave as it is. -/
structure Same (t s : State) : Prop where
  resetn : t.resetn = s.resetn
  given : t.given = s.given
  done : t.done = s.done
  atReset : t.atReset = s.atReset
  failed : t.failed = s.failed
  ar : t.ar = s.ar
  w : t.w = s.w
  aw : t.aw = s.aw

theorem inv_abort {t : State} (h : Inv cfg s p) (hp : p.map Prod.snd = some c) (hsame : Same t s) (hreset : s.resetn = false) (hat : At t none)
    (hdata : t.wrData.hand = []) : Inv cfg (t.finish c .aborted) none where
  place := { hat with }
  current := rfl
  failed := hsame.failed.trans h.failed
  clearing _ := hsame.resetn.trans hreset
  cleared _ _ := .inl rfl
  data _ := hdata
  asked hn := not_both (hsame.resetn.trans hreset) hn
  reset _ := by
    have hslave := h.reset hreset
    rw [← hsame.ar, ← hsame.w, ← hsame.aw] at hslave
    exact hslave
  inWord := by simp
  atReset c' hc' := by
    rw [State.finish, hsame.done]
    rw [State.finish, hsame.atReset] at hc'
    obtain hdone | ⟨-, hcur⟩ := h.atReset c' hc'
    · exact .inl (List.mem_append_left _ hdone)
    · obtain rfl : c = c' := Option.some.inj (hp.symm.trans (h.current.symm.trans hcur))
      exact .inl (by simp)
  truth c' r hc' := by
    rw [State.finish, hsame.given]
    rw [State.finish, hsame.done] at hc'
    exact h.truth c' r (by simpa using hc')

theorem inv_answer {t : State} {r : Resp} (h : Inv cfg s p) (hreset : s.resetn = true) (hresetn : t.resetn = s.resetn)
    (hclearing : t.clearing = s.clearing) (hdone : t.done = s.done) (hgiven : t.given = s.given ++ [(c, r)]) (hatReset : t.atReset = s.atReset)
    (hfailed : t.failed = s.failed) (hat : At t none) (hasked : Asked t none) : Inv cfg (t.finish c (.answered r)) none where
  place := { hat with }
  current := rfl
  failed := hfailed.trans h.failed
  clearing hc := hresetn.trans (h.clearing (hclearing.symm.trans hc))
  cleared _ _ := .inl rfl
  data hn := not_both hn (hresetn.trans hreset)
  asked _ := hasked
  reset hn := not_both hn (hresetn.trans hreset)
  inWord := by simp
  atReset c' hc' := by
    rw [State.finish, hdone]
    rw [State.finish, hatReset] at hc'
    obtain hdone | ⟨hn, -⟩ := h.atReset c' hc'
    · exact .inl (List.mem_append_left _ hdone)
    · exact not_both hn hreset
  truth c' r' hc' := by
    rw [State.finish, hgiven]
    rw [State.finish, hdone, List.mem_append] at hc'
    obtain hc' | hc' := hc'
    · exact List.mem_append_left _ (h.truth c' r' hc')
    · simp only [List.mem_singleton, Prod.mk.injEq, Outcome.answered.injEq] at hc'
      simp [hc']

theorem Inv.takeRd (h : Inv cfg s p) (hs : step cfg s .takeRd = some s') : ∃ p', Inv cfg s' p' := by
  simp only [step] at hs
  split at hs
  next c rest haddr hfifo =>
    obtain ⟨rfl, rfl⟩ := place_of_here h.place.rdTransFifo hfifo
    have hat := h.place
    split at hs
    next hreset =>
      cases hs
      exact ⟨some (.rdAddr, c), { h with
        place := { hat with rdTransFifo := rfl, rdAddr := rfl }
        cleared := fun _ _ => .inr ⟨c, rfl⟩
        inWord := by
          rintro _ _ ⟨⟩ -
          exact h.inWord .rdTrans c rfl (by decide) }⟩
    next hreset =>
      cases hs
      exact ⟨none, inv_abort h rfl ⟨rfl, rfl, rfl, rfl, rfl, rfl, rfl, rfl⟩ (Bool.eq_false_iff.2 hreset)
        { hat with rdTransFifo := rfl, rdAddr := rfl } hat.wrData⟩
  next => cases hs

theorem Inv.arready (h : Inv cfg s p) (hs : step cfg s .arready = some s') : ∃ p', Inv cfg s' p' := by
  simp only [step] at hs
  split at hs
  next c haddr =>
    obtain ⟨rfl, -⟩ := place_of_here h.place.rdAddr (Pc.hand_eq haddr)
    have hat := h.place
    split at hs
    next hreset =>
      cases hs
      obtain ⟨-, hw, hhand, haw⟩ := h.asked hreset
      exact ⟨some (.rdResponses, c), { h with
        place := { hat with rdAddr := rfl, rdResponses := by rw [hat.rdResponses]; rfl }
        cleared := fun hn => not_both hn hreset
        asked := fun _ => ⟨rfl, hw, hhand, haw⟩
        reset := fun hn => not_both hn hreset
        inWord := by
          rintro _ _ ⟨⟩ -
          exact h.inWord .rdAddr c rfl (by decide) }⟩
    next => cases hs
  next => cases hs

theorem Inv.rbeat {r : Resp} (h : Inv cfg s p) (hs : step cfg s (.rbeat r) = some s') : ∃ p', Inv cfg s' p' := by
  simp only [step] at hs
  split at hs
  next asked c rest hresp har hfifo =>
    obtain ⟨rfl, rfl⟩ := place_of_here h.place.rdResponses hfifo
    have hat := h.place
    split at hs
    next => cases hs
    next hreset =>
      rw [Bool.not_eq_false] at hreset
      obtain ⟨har', hw, hhand, haw⟩ := h.asked hreset
      obtain rfl : asked = c := Option.some.inj (har.symm.trans har')
      rw [if_pos (h.inWord _ asked rfl (by decide))] at hs
      cases hs
      exact ⟨none, inv_answer h hreset rfl rfl rfl rfl rfl rfl { hat with rdResponses := rfl } ⟨rfl, hw, hhand, haw⟩⟩
  next => cases hs

theorem Inv.abortRdAddr (h : Inv cfg s p) (hs : step cfg s .abortRdAddr = some s') : ∃ p', Inv cfg s' p' := by
  simp only [step] at hs
  split at hs
  next c haddr =>
    obtain ⟨rfl, -⟩ := place_of_here h.place.rdAddr (Pc.hand_eq haddr)
    have hat := h.place
    split at hs
    next hreset =>
      cases hs
      exact ⟨none, inv_abort h rfl ⟨rfl, rfl, rfl, rfl, rfl, rfl, rfl, rfl⟩ hreset { hat with rdAddr := rfl } hat.wrData⟩
    next => cases hs
  next => cases hs

theorem Inv.abortRdResp (h : Inv cfg s p) (hs : step cfg s .abortRdResp = some s') : ∃ p', Inv cfg s' p' := by
  simp only [step] at hs
  split at hs
  next => cases hs
  next hreset =>
    have hat := h.place
    split at hs
    next hresp =>
      cases hs
      exact ⟨p, { h with place := { hat with rdResp := rfl }, asked := fun hn => absurd hn hreset }⟩
    next c hresp => exact absurd hat.rdResp (by simp [hresp, Pc.hand])
    next => cases hs

theorem Inv.takeWr (h : Inv cfg s p) (hs : step cfg s .takeWr = some s') : ∃ p', Inv cfg s' p' := by
  simp only [step] at hs
  split at hs
  next c rest haddr hfifo =>
    obtain ⟨rfl, rfl⟩ := place_of_here h.place.wrTransFifo hfifo
    have hat := h.place
    split at hs
    next hreset =>
      cases hs
      obtain ⟨har, hw, -, haw⟩ := h.asked hreset
      exact ⟨some (.wrDataFifo, c), { h with
        place := { hat with wrTransFifo := rfl, wrDataFifo := by rw [hat.wrDataFifo]; rfl }
        cleared := fun hn => not_both hn hreset
        asked := fun _ => ⟨har, hw, .inl ⟨rfl, haw⟩⟩
        inWord := by simp }⟩
    next hreset =>
      cases hs
      exact ⟨none, inv_abort h rfl ⟨rfl, rfl, rfl, rfl, rfl, rfl, rfl, rfl⟩ (Bool.eq_false_iff.2 hreset) { hat with wrTransFifo := rfl } hat.wrData⟩
  next => cases hs

/-- The slave takes the address of a write. -/
theorem Asked.awready (h : Asked s p) (haddr : s.wrAddr = .busy c) : Asked { s with wrAddr := .idle, aw := some c } p := by
  have hhand : s.wrAddr.hand ≠ [] := by simp [haddr, Pc.hand]
  have hsent : ∀ c', AddrSent s c' → AddrSent { s with wrAddr := .idle, aw := some c } c' := by
    rintro c' (⟨hvalid, -⟩ | ⟨hnil, -⟩)
    · obtain rfl : c = c' := Pc.busy.inj (haddr.symm.trans hvalid)
      exact .inr ⟨rfl, rfl⟩
    · exact absurd hnil hhand
  obtain _ | ⟨q, d⟩ := p
  · exact absurd h.2.2.1 hhand
  cases q with
  | rdTrans | rdAddr | wrTrans | rdResponses => exact absurd h.2.2.1 hhand
  | wrDataFifo | wrData | wrResponses => exact ⟨h.1, h.2.1, hsent _ h.2.2⟩

theorem Inv.awready (h : Inv cfg s p) (hs : step cfg s .awready = some s') : ∃ p', Inv cfg s' p' := by
  simp only [step] at hs
  split at hs
  next c haddr =>
    split at hs
    next hreset =>
      cases hs
      have hat := h.place
      exact ⟨p, { h with
        place := { hat with }
        asked := fun _ => (h.asked hreset).awready haddr
        reset := fun hn => not_both hn hreset }⟩
    next => cases hs
  next => cases hs

theorem Inv.takeData (h : Inv cfg s p) (hok : StepOk cfg s .takeData) (hs : step cfg s .takeData = some s') : ∃ p', Inv cfg s' p' := by
  have hreset : s.resetn = true := hok
  simp only [step] at hs
  split at hs
  next c rest hdata hfifo =>
    obtain ⟨rfl, rfl⟩ := place_of_here h.place.wrDataFifo hfifo
    cases hs
    have hat := h.place
    exact ⟨some (.wrData, c), { h with
      place := { hat with wrDataFifo := rfl, wrData := rfl }
      cleared := fun hn => not_both hn hreset
      data := fun hn => not_both hn hreset
      inWord := by simp }⟩
  next => cases hs

theorem Inv.wready (h : Inv cfg s p) (hs : step cfg s .wready = some s') : ∃ p', Inv cfg s' p' := by
  simp only [step] at hs
  split at hs
  next c hdata =>
    obtain ⟨rfl, -⟩ := place_of_here h.place.wrData (Pc.hand_eq hdata)
    split at hs
    next hreset =>
      cases hs
      have hat := h.place
      obtain ⟨har, -, hsent⟩ := h.asked hreset
      exact ⟨some (.wrResponses, c), { h with
        place := { hat with wrData := rfl, wrResponses := by rw [hat.wrResponses]; rfl }
        cleared := fun hn => not_both hn hreset
        data := fun _ => rfl
        asked := fun _ => ⟨har, rfl, hsent⟩
        reset := fun hn => not_both hn hreset
        inWord := by simp }⟩
    next => cases hs
  next => cases hs

theorem Inv.bresp {r : Resp} (h : Inv cfg s p) (hs : step cfg s (.bresp r) = some s') : ∃ p', Inv cfg s' p' := by
  simp only [step] at hs
  split at hs
  next asked c' c rest haw hw hfifo =>
    obtain ⟨rfl, rfl⟩ := place_of_here h.place.wrResponses hfifo
    split at hs
    next => cases hs
    next hreset =>
      have hreset : s.resetn = true := by simpa using fun hn => hreset (.inl hn)
      have hat := h.place
      obtain ⟨har, -, ⟨-, hnone⟩ | ⟨hhand, haw'⟩⟩ := h.asked hreset
      · rw [haw] at hnone
        cases hnone
      · obtain rfl : asked = c := Option.some.inj (haw.symm.trans haw')
        cases hs
        exact ⟨none, inv_answer h hreset rfl rfl rfl rfl rfl rfl { hat with wrResponses := rfl } ⟨har, rfl, hhand, rfl⟩⟩
  next => cases hs

theorem Inv.abortWrAddr (h : Inv cfg s p) (hs : step cfg s .abortWrAddr = some s') : ∃ p', Inv cfg s' p' := by
  simp only [step] at hs
  split at hs
  next c haddr =>
    split at hs
    next hreset =>
      cases hs
      have hat := h.place
      exact ⟨p, { h with place := { hat with }, asked := fun hn => not_both hreset hn }⟩
    next => cases hs
  next => cases hs

theorem Inv.abortWrData (h : Inv cfg s p) (hs : step cfg s .abortWrData = some s') : ∃ p', Inv cfg s' p' := by
  simp only [step] at hs
  split at hs
  next c hdata =>
    split at hs
    next hreset => exact absurd (h.data hreset) (by simp [hdata, Pc.hand])
    next => cases hs
  next => cases hs

theorem Inv.abortWrResp (h : Inv cfg s p) (hs : step cfg s .abortWrResp = some s') : ∃ p', Inv cfg s' p' := by
  simp only [step] at hs
  split at hs
  next hreset =>
    cases hs
    have hat := h.place
    exact ⟨p, { h with place := { hat with }, asked := fun hn => not_both hreset.1 hn }⟩
  next => cases hs

theorem Inv.fall (h : Inv cfg s p) (hok : StepOk cfg s .fall) (hs : step cfg s .fall = some s') : ∃ p', Inv cfg s' p' := by
  simp only [step] at hs
  split at hs
  next hreset =>
    cases hs
    have hat := h.place
    exact ⟨p, { h with
      place := { hat with }
      clearing := fun _ => rfl
      cleared := fun _ hn => Bool.noConfusion hn
      data := fun _ => hok
      asked := fun hn => Bool.noConfusion hn
      reset := fun _ => ⟨rfl, rfl, rfl⟩
      atReset := fun c hc => .inr ⟨rfl, hc⟩ }⟩
  next => cases hs

/-- The fifos have the pointer, unless a thread has it. -/
theorem At.fifos (h : At s p) (hdata : s.wrData.hand = []) (haddr : s.rdAddr.hand = []) :
    s.rdTransFifo ++ s.wrTransFifo ++ s.rdResponses ++ s.wrDataFifo ++ s.wrResponses = (p.map Prod.snd).toList := by
  rw [h.rdTransFifo, h.wrTransFifo, h.rdResponses, h.wrDataFifo, h.wrResponses]
  rw [h.wrData] at hdata
  rw [h.rdAddr] at haddr
  obtain _ | ⟨q, d⟩ := p
  · rfl
  · cases q <;> simp_all [here]

/-- A bridge whose fifos are empty. -/
def State.empty (s : State) : State :=
  { s with clearing := false, rdTransFifo := [], wrTransFifo := [], rdResponses := [], wrDataFifo := [], wrResponses := [] }

theorem Inv.clear (h : Inv cfg s p) (hs : step cfg s .clear = some s') : ∃ p', Inv cfg s' p' := by
  simp only [step] at hs
  split at hs
  next hclearing =>
    cases hs
    have hreset := h.clearing hclearing
    have hdata := h.data hreset
    have hat := h.place
    by_cases haddr : s.rdAddr.hand = []
    · rw [hat.fifos hdata haddr]
      have hnone : At s.empty none := ⟨rfl, haddr, rfl, hat.rdResp, rfl, rfl, hdata, rfl⟩
      cases hp : p.map Prod.snd with
      | none =>
        exact ⟨none, { h with
          place := hnone
          current := h.current.trans hp
          clearing := fun hn => Bool.noConfusion hn
          cleared := fun _ _ => .inl rfl
          asked := fun hn => not_both hreset hn
          inWord := by simp }⟩
      | some c => exact ⟨none, inv_abort (t := s.empty) h hp ⟨rfl, rfl, rfl, rfl, rfl, rfl, rfl, rfl⟩ hreset hnone hdata⟩
    · obtain _ | ⟨q, c⟩ := p
      · exact absurd hat.rdAddr haddr
      by_cases hq : q = .rdAddr
      · subst hq
        have hfifos : s.rdTransFifo ++ s.wrTransFifo ++ s.rdResponses ++ s.wrDataFifo ++ s.wrResponses = [] := by
          rw [hat.rdTransFifo, hat.wrTransFifo, hat.rdResponses, hat.wrDataFifo, hat.wrResponses]
          rfl
        rw [hfifos]
        exact ⟨some (.rdAddr, c), { h with
          place := ⟨rfl, hat.rdAddr, rfl, hat.rdResp, rfl, rfl, hdata, rfl⟩
          clearing := fun hn => Bool.noConfusion hn
          cleared := fun _ _ => .inr ⟨c, rfl⟩
          asked := fun hn => not_both hreset hn }⟩
      · exact absurd (hat.rdAddr.trans (if_neg hq)) haddr
  next => cases hs

/-- A bridge that has seen its reset. -/
structure Settled (s : State) : Prop where
  clearing : s.clearing = false
  rdAddr : s.rdAddr.hand = []
  wrAddr : s.wrAddr.hand = []

theorem settled_of (h : s.settled = true) : Settled s := by
  simp only [State.settled, Bool.and_eq_true, Bool.not_eq_true'] at h
  obtain ⟨⟨⟨⟨⟨hclearing, hrd⟩, -⟩, hwr⟩, -⟩, -⟩ := h
  refine ⟨hclearing, ?_, ?_⟩
  · cases ha : s.rdAddr <;> simp_all [Pc.hand]
  · cases ha : s.wrAddr <;> simp_all [Pc.hand]

theorem Inv.nowhere_of_settled (h : Inv cfg s p) (hreset : s.resetn = false) (hs : Settled s) : p = none := by
  obtain hp | ⟨c, rfl⟩ := h.cleared hreset hs.clearing
  · exact hp
  · exact absurd (h.place.rdAddr.symm.trans hs.rdAddr) (by simp [here])

theorem Inv.rise (h : Inv cfg s p) (hs : step cfg s .rise = some s') : ∃ p', Inv cfg s' p' := by
  simp only [step] at hs
  split at hs
  next hrise =>
    obtain ⟨hreset, hsettled⟩ := hrise
    have hsettled := settled_of hsettled
    cases hs
    obtain rfl := h.nowhere_of_settled hreset hsettled
    have hat := h.place
    obtain ⟨har, hw, haw⟩ := h.reset hreset
    refine ⟨none, { h with
      place := { hat with }
      clearing := fun hn => not_both hsettled.clearing hn
      cleared := fun hn => Bool.noConfusion hn
      data := fun hn => Bool.noConfusion hn
      asked := fun _ => ⟨har, hw, hsettled.wrAddr, haw⟩
      reset := fun hn => Bool.noConfusion hn
      atReset := fun c hc => ?_ }⟩
    obtain hdone | ⟨-, hcur⟩ := h.atReset c hc
    · exact .inl hdone
    · rw [h.current] at hcur
      cases hcur
  next => cases hs

theorem Pc.hand_resume (a : Pc) : (if a = .held then .idle else a).hand = a.hand := by
  cases a <;> rfl

/-- The threads behind `wait_for_reset_release`. -/
def State.resumed (s : State) : State :=
  { s with
    rdAddr := if s.rdAddr = .held then .idle else s.rdAddr
    rdResp := if s.rdResp = .held then .idle else s.rdResp
    wrAddr := if s.wrAddr = .held then .idle else s.wrAddr
    wrData := if s.wrData = .held then .idle else s.wrData
    wrRespHeld := false }

theorem Asked.resumed (h : Asked s p) : Asked s.resumed p := by
  have hhand : s.resumed.wrAddr.hand = s.wrAddr.hand := Pc.hand_resume _
  have hsent : ∀ c, AddrSent s c → AddrSent s.resumed c := by
    rintro c (⟨hvalid, haw⟩ | ⟨hnil, haw⟩)
    · exact .inl ⟨by simp [State.resumed, hvalid], haw⟩
    · exact .inr ⟨hhand.trans hnil, haw⟩
  obtain _ | ⟨q, d⟩ := p
  · exact ⟨h.1, h.2.1, hhand.trans h.2.2.1, h.2.2.2⟩
  cases q with
  | rdTrans | rdAddr | wrTrans | rdResponses => exact ⟨h.1, h.2.1, hhand.trans h.2.2.1, h.2.2.2⟩
  | wrDataFifo | wrData | wrResponses => exact ⟨h.1, h.2.1, hsent _ h.2.2⟩

theorem Inv.resume (h : Inv cfg s p) (hs : step cfg s .resume = some s') : ∃ p', Inv cfg s' p' := by
  simp only [step] at hs
  split at hs
  next hreset =>
    obtain rfl : s.resumed = s' := Option.some.inj hs
    have hat := h.place
    have hdata : s.resumed.wrData.hand = s.wrData.hand := Pc.hand_resume _
    exact ⟨p, { h with
      place := { hat with
        rdAddr := (Pc.hand_resume _).trans hat.rdAddr
        rdResp := (Pc.hand_resume _).trans hat.rdResp
        wrData := hdata.trans hat.wrData }
      data := fun hn => hdata.trans (h.data hn)
      asked := fun hn => (h.asked hn).resumed }⟩
  next => cases hs

theorem Inv.call {q : Request} (h : Inv cfg s p) (hok : StepOk cfg s (.call q)) (hs : step cfg s (.call q) = some s') : ∃ p', Inv cfg s' p' := by
  simp only [step] at hs
  split at hs
  next => cases hs
  next hfree =>
    rw [not_not] at hfree
    have hat := h.place
    have hnone : p.map Prod.snd = none := h.current.symm.trans hfree
    obtain rfl := Option.map_eq_none_iff.1 hnone
    have haborted : ∀ c ∈ s.atReset, (c, Outcome.aborted) ∈ s.done := by
      intro c hc
      obtain hdone | ⟨-, hcur⟩ := h.atReset c hc
      · exact hdone
      · rw [hfree] at hcur
        cases hcur
    split at hs
    next hvalid =>
      have hreset := hvalid.1
      split at hs
      next hread =>
        cases hs
        refine ⟨some (.rdTrans, _), { h with
          place := { hat with rdTransFifo := by rw [hat.rdTransFifo]; rfl }
          current := rfl
          cleared := fun hn => not_both hn hreset
          inWord := fun q c hc _ => ?_
          atReset := fun c hc => .inl (haborted c hc) }⟩
        cases hc
        exact hok hread hvalid.2
      next hwrite =>
        cases hs
        exact ⟨some (.wrTrans, _), { h with
          place := { hat with wrTransFifo := by rw [hat.wrTransFifo]; rfl }
          current := rfl
          cleared := fun hn => not_both hn hreset
          inWord := by simp
          atReset := fun c hc => .inl (haborted c hc) }⟩
    next =>
      cases hs
      exact ⟨none, { h with
        place := { hat with }
        atReset := fun c hc => .inl (List.mem_append_left _ (haborted c hc))
        truth := fun c r hc => h.truth c r (by simpa using hc) }⟩

theorem inv_step {e : Event} (h : ∃ p, Inv cfg s p) (hok : StepOk cfg s e) (hs : step cfg s e = some s') : ∃ p', Inv cfg s' p' := by
  obtain ⟨p, h⟩ := h
  cases e with
  | call q => exact h.call hok hs
  | takeRd => exact h.takeRd hs
  | arready => exact h.arready hs
  | rbeat r => exact h.rbeat hs
  | abortRdAddr => exact h.abortRdAddr hs
  | abortRdResp => exact h.abortRdResp hs
  | takeWr => exact h.takeWr hs
  | awready => exact h.awready hs
  | takeData => exact h.takeData hok hs
  | wready => exact h.wready hs
  | bresp r => exact h.bresp hs
  | abortWrAddr => exact h.abortWrAddr hs
  | abortWrData => exact h.abortWrData hs
  | abortWrResp => exact h.abortWrResp hs
  | fall => exact h.fall hok hs
  | clear => exact h.clear hs
  | rise => exact h.rise hs
  | resume => exact h.resume hs

/-! ### Progress -/

/-- Whether a thread is in `wait_for_reset_release`. -/
def Pc.release : Pc → ℕ
  | .held => 1
  | _ => 0

/-- The threads that are still in `wait_for_reset_release`. -/
def heldThreads (s : State) : ℕ := s.rdAddr.release + s.rdResp.release + s.wrAddr.release + s.wrData.release + s.wrRespHeld.toNat

/-- The steps that are left of the call that is in, or more. -/
def left (s : State) : ℕ :=
  30 * s.wrTransFifo.length + 20 * s.wrDataFifo.length + 15 * s.wrData.hand.length + 10 * s.wrResponses.length + s.wrAddr.hand.length +
    30 * s.rdTransFifo.length + 20 * s.rdAddr.hand.length + 10 * s.rdResponses.length + heldThreads s

/-- A step that the call that is in makes without a reset. -/
structure Advances (cfg : Config) (r : Resp) (c : Call) (s : State) (e : Event) (s' : State) : Prop where
  own : Own r e
  step : step cfg s e = some s'
  left : left s' < left s
  resetn : s'.resetn = true
  call : s'.current = some c ∨ s'.current = none ∧ (c, .answered r) ∈ s'.done

theorem Pc.release_resume (a : Pc) : (if a = .held then .idle else a).release = 0 := by
  cases a <;> rfl

theorem heldThreads_resumed (s : State) : heldThreads s.resumed = 0 := by
  simp only [heldThreads, State.resumed, Pc.release_resume, Bool.toNat_false]

theorem left_resumed (s : State) (h : 0 < heldThreads s) : left s.resumed < left s := by
  have hheld := heldThreads_resumed s
  have hwrData : s.resumed.wrData.hand = s.wrData.hand := Pc.hand_resume _
  have hwrAddr : s.resumed.wrAddr.hand = s.wrAddr.hand := Pc.hand_resume _
  have hrdAddr : s.resumed.rdAddr.hand = s.rdAddr.hand := Pc.hand_resume _
  rw [left, left, hheld, hwrData, hwrAddr, hrdAddr]
  simp only [State.resumed]
  omega

/-- A thread that has nothing in hand and is not at the release of reset is at its top. -/
theorem Pc.eq_idle {a : Pc} (hhand : a.hand = []) (hrelease : a.release = 0) : a = .idle := by
  cases a <;> simp_all [hand, release]

theorem Pc.eq_busy {a : Pc} (hhand : a.hand = [c]) : a = .busy c := by
  cases a <;> simp_all [hand]

/-- With reset released, the call that is in makes a step. -/
theorem Inv.advances (h : Inv cfg s p) (hreset : s.resetn = true) (hcur : s.current = some c) (r : Resp) : ∃ e s', Advances cfg r c s e s' := by
  have hat := h.place
  by_cases hheld : 0 < heldThreads s
  · exact ⟨.resume, s.resumed, by simp [Own], by rw [step, if_pos hreset]; rfl, left_resumed s hheld, hreset, .inl hcur⟩
  have hzero : heldThreads s = 0 := by omega
  simp only [heldThreads] at hzero
  have hcall : p.map Prod.snd = some c := h.current.symm.trans hcur
  have hasked := h.asked hreset
  obtain _ | ⟨q, d⟩ := p
  · cases hcall
  obtain rfl : d = c := Option.some.inj hcall
  cases q with
  | rdTrans =>
    have haddr : s.rdAddr = .idle := Pc.eq_idle hat.rdAddr (by omega)
    have hfifo : s.rdTransFifo = [d] := hat.rdTransFifo
    refine ⟨.takeRd, { s with rdAddr := .busy d, rdTransFifo := [] }, by simp [Own], by simp [step, haddr, hfifo, hreset], ?_, hreset, .inl hcur⟩
    simp [left, heldThreads, haddr, hfifo, Pc.hand, Pc.release]
  | rdAddr =>
    have haddr : s.rdAddr = .busy d := Pc.eq_busy hat.rdAddr
    have hfifo : s.rdResponses = [] := hat.rdResponses
    refine ⟨.arready, { s with rdAddr := .idle, rdResponses := s.rdResponses ++ [d], ar := some d }, by simp [Own], by simp [step, haddr, hreset], ?_,
      hreset, .inl hcur⟩
    simp [left, heldThreads, haddr, hfifo, Pc.hand, Pc.release]
  | rdResponses =>
    have hresp : s.rdResp = .idle := Pc.eq_idle hat.rdResp (by omega)
    have hfifo : s.rdResponses = [d] := hat.rdResponses
    refine ⟨.rbeat r, { s with ar := none, rdResponses := [], given := s.given ++ [(d, r)] }.finish d (.answered r), by simp [Own],
      by simp [step, hresp, hasked.1, hfifo, hreset, h.inWord _ d rfl (by decide)], ?_, hreset, .inr ⟨rfl, by simp [State.finish]⟩⟩
    simp [left, heldThreads, State.finish, hfifo]
  | wrTrans =>
    have haddr : s.wrAddr = .idle := Pc.eq_idle hasked.2.2.1 (by omega)
    have hfifo : s.wrTransFifo = [d] := hat.wrTransFifo
    refine ⟨.takeWr, { s with wrAddr := .busy d, wrTransFifo := [], wrDataFifo := s.wrDataFifo ++ [d] }, by simp [Own],
      by simp [step, haddr, hfifo, hreset], ?_, hreset, .inl hcur⟩
    simp [left, heldThreads, haddr, hfifo, Pc.hand, Pc.release]
    omega
  | wrDataFifo =>
    have hdata : s.wrData = .idle := Pc.eq_idle hat.wrData (by omega)
    have hfifo : s.wrDataFifo = [d] := hat.wrDataFifo
    refine ⟨.takeData, { s with wrData := .busy d, wrDataFifo := [] }, by simp [Own], by simp [step, hdata, hfifo], ?_, hreset, .inl hcur⟩
    simp [left, heldThreads, hdata, hfifo, Pc.hand, Pc.release]
  | wrData =>
    have hdata : s.wrData = .busy d := Pc.eq_busy hat.wrData
    refine ⟨.wready, { s with wrData := .idle, wrResponses := s.wrResponses ++ [d], w := some d }, by simp [Own], by simp [step, hdata, hreset], ?_,
      hreset, .inl hcur⟩
    simp [left, heldThreads, hdata, Pc.hand, Pc.release]
    omega
  | wrResponses =>
    have hfifo : s.wrResponses = [d] := hat.wrResponses
    have hheld' : s.wrRespHeld = false := Bool.toNat_eq_zero.1 (by omega)
    obtain ⟨-, hw, ⟨haddr, -⟩ | ⟨-, haw⟩⟩ := hasked
    · refine ⟨.awready, { s with wrAddr := .idle, aw := some d }, by simp [Own], by simp [step, haddr, hreset], ?_, hreset, .inl hcur⟩
      simp [left, heldThreads, haddr, Pc.hand, Pc.release]
    · refine ⟨.bresp r, { s with aw := none, w := none, wrResponses := [], given := s.given ++ [(d, r)] }.finish d (.answered r), by simp [Own],
        by simp [step, haw, hw, hfifo, hreset, hheld'], ?_, hreset, .inr ⟨rfl, by simp [State.finish]⟩⟩
      simp [left, heldThreads, State.finish, hfifo]

theorem Advances.stepOk {e : Event} {r : Resp} (h : Advances cfg r c s e s') (hreset : s.resetn = true) : StepOk cfg s e := by
  rcases h.own with rfl | rfl | rfl | rfl | rfl | rfl | rfl | rfl | rfl
  case inr.inr.inr.inr.inr.inl => exact hreset
  all_goals trivial

/-! ### Runs -/

theorem Inv.pointers_eq (h : Inv cfg s p) : s.pointers = s.current.toList := by
  have hat := h.place
  rw [h.current, State.pointers, hat.rdTransFifo, hat.rdAddr, hat.rdResponses, hat.rdResp, hat.wrTransFifo, hat.wrDataFifo, hat.wrData, hat.wrResponses]
  obtain _ | ⟨q, c⟩ := p
  · rfl
  · cases q <;> rfl

/-- Without a reset the call that is in is performed. -/
theorem Inv.performed (h : Inv cfg s p) (hreset : s.resetn = true) (hcur : s.current = some c) (r : Resp) :
    ∃ es, (∀ e ∈ es, Own r e) ∧ ∃ s', run (step cfg) s es = some s' ∧ s'.current = none ∧ (c, .answered r) ∈ s'.done := by
  let I : State → Prop := fun u =>
    (∃ p, Inv cfg u p) ∧ u.resetn = true ∧ (u.current = some c ∨ u.current = none ∧ (c, .answered r) ∈ u.done)
  have hnext : ∀ u, I u → ¬ u.current = none → ∃ e u', Own r e ∧ step cfg u e = some u' ∧ I u' ∧ left u' < left u := by
    rintro u ⟨⟨q, hu⟩, hureset, hucur⟩ hbusy
    obtain ⟨e, u', hadv⟩ := hu.advances hureset (hucur.resolve_right fun hnone => hbusy hnone.1) r
    exact ⟨e, u', hadv.own, hadv.step, ⟨inv_step ⟨q, hu⟩ (hadv.stepOk hureset) hadv.step, hadv.resetn, hadv.call⟩, hadv.left⟩
  obtain ⟨es, hes, s', hrun, ⟨-, -, hend⟩, hdone⟩ : ∃ es, (∀ e ∈ es, Own r e) ∧ ∃ s', run (step cfg) s es = some s' ∧ I s' ∧ s'.current = none :=
    exists_run_of_measure left hnext ⟨⟨p, h⟩, hreset, .inl hcur⟩
  refine ⟨es, hes, s', hrun, hdone, ?_⟩
  obtain hsome | ⟨-, hmem⟩ := hend
  · rw [hdone] at hsome
    cases hsome
  · exact hmem

/-- **A reset leaves nothing behind**, in any run in which each read is in its bus word and no reset finds `write_data_phase` with
a transaction. -/
theorem recovered_of_reach (h : Reach (step cfg) (StepOk cfg) {} s) : Recovers cfg s := by
  obtain ⟨p, hinv⟩ := h.invariant (I := fun s => ∃ p, Inv cfg s p) ⟨none, inv_init⟩ inv_step
  have hnone : s.resetn = false → s.settled = true → s.current = none := by
    intro hreset hsettled
    rw [hinv.current, hinv.nowhere_of_settled hreset (settled_of hsettled)]
    rfl
  refine ⟨hinv.failed, fun c hc => ?_, hnone, fun hseen c hc => ?_, hinv.truth, fun hreset c hc r => hinv.performed hreset hc r⟩
  · rw [hinv.pointers_eq] at hc
    exact Option.mem_toList.1 hc
  · obtain hdone | ⟨hreset, hcur⟩ := hinv.atReset c hc
    · exact hdone
    · rw [hnone hreset (hseen.resolve_left (by simp [hreset]))] at hcur
      cases hcur

theorem two_le_27 : 2 ≤ 27 := by decide

/-- Four bytes of data. -/
def narrow : Config := ⟨2, true, two_le_27⟩

/-- A reset while a write has its response to come, and a read behind it. -/
def lateReset : List Event :=
  [.call ⟨false, 4, 0⟩, .takeWr, .takeData, .awready, .wready, .fall, .abortRdResp, .clear, .abortWrResp, .rise, .call ⟨true, 2, 2⟩, .takeRd, .resume]

theorem recovers_lateReset : ∃ s, run (step narrow) {} lateReset = some s ∧ s.done = [(⟨⟨false, 4, 0⟩, 0⟩, .aborted)] ∧ Recovers narrow s := by
  have hok : RunOk (step narrow) (StepOk narrow) {} lateReset := by decide
  have hdone : (run (step narrow) {} lateReset).map State.done = some [(⟨⟨false, 4, 0⟩, 0⟩, .aborted)] := by decide
  obtain ⟨s, hs, hlog⟩ := Option.map_eq_some_iff.1 hdone
  exact ⟨s, hs, hlog, recovered_of_reach (Reach.refl.of_run hok hs)⟩

/-- A write that a reset finds with its data on the bus is lost, and a read over two bus words fails the assertion. -/
theorem not_recovers_of_reach : (¬ ∀ s, Reach (step narrow) anyStep {} s → s.resetn = false → s.settled = true → s.current = none) ∧
    ¬ ∀ s, Reach (step narrow) anyStep {} s → s.failed = false := by
  constructor
  · intro h
    have hrun : (run (step narrow) {} [.call ⟨false, 4, 0⟩, .takeWr, .takeData, .fall, .clear, .abortRdResp, .abortWrAddr, .abortWrData, .abortWrResp]).map
        (fun s => (s.resetn, s.settled, s.current)) = some (false, true, some ⟨⟨false, 4, 0⟩, 0⟩) := by decide
    obtain ⟨s, hs, hlog⟩ := Option.map_eq_some_iff.1 hrun
    simp only [Prod.mk.injEq] at hlog
    have hfree := h s (reach_of_run hs) hlog.1 hlog.2.1
    rw [hlog.2.2] at hfree
    cases hfree
  · intro h
    have hrun : (run (step narrow) {} [.call ⟨true, 4, 2⟩, .takeRd, .arready, .rbeat .okay, .fall, .abortRdResp]).map State.failed = some true := by decide
    obtain ⟨s, hs, hlog⟩ := Option.map_eq_some_iff.1 hrun
    rw [h s (reach_of_run hs)] at hlog
    cases hlog

end LibSystemCTLM.AxiLite.Reset
