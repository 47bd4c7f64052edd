import LibSystemCTLM.Tlm.Payload

/-!
# Retries towards the slave node

The slave node may refuse a request of the home node that has `AllowRetry` with a `RetryAck`, and grants a credit for it
with a `PCrdGrant`, before or behind that. With both, the home node issues the request again (`ProcessResp_SN` of
`iconnect-chi.h`). What it needs for that is kept with the request that it serves: a copy of its last request to the
slave node, and whether it got the one and the other.

Nothing resets the two flags. So they are right for one request to the slave node that is refused, and of a second one
for the same request the copy is issued at the first message, and once more at the other (`reissued_iff`).

## The model

A served request is a list of requests to the slave node, one behind the other, each with what the slave node answers
before it takes it. Which requests these are is left open: the home node writes dirty data out, and then reads or
writes, so that there are two of them at most. `SlaveNode_F` refuses every other one, and then all is well
(`reissued_of_slaveNode`).
-/

namespace LibSystemCTLM.Chi.SlaveRetry

open Tlm

/-- A request to the slave node: what tells one from another, and what a retry changes. -/
structure SNReq where
  opcode : ℕ
  address : Addr
  txnID : BitVec 8
  allowRetry : Bool := true
  pCrdType : ℕ := 0
  deriving DecidableEq

/-- `ReqTxn` of the home node, as far as retries go by it. -/
structure ReqTxn where
  gotRetryAck : Bool := false
  gotPCrdGrant : Bool := false
  reqSNCopy : Option SNReq := none

inductive Event where
  /-- A `ReqTxn` for the slave node is built, and transmitted. -/
  | issue (req : SNReq)
  | retryAck (pCrdType : ℕ)
  | pCrdGrant
  deriving DecidableEq

namespace ReqTxn

variable (t : ReqTxn)

def retryRequest : Bool := t.gotRetryAck && t.gotPCrdGrant

def handleRetryAck (pCrdType : ℕ) : ReqTxn :=
  { t with gotRetryAck := true, reqSNCopy := t.reqSNCopy.map fun r => { r with allowRetry := false, pCrdType := pCrdType } }

def handlePCrdGrant : ReqTxn := { t with gotPCrdGrant := true }

/-- `ProcessResp_SN` transmits the copy when it has both. -/
def retry : List SNReq := if t.retryRequest = true then t.reqSNCopy.toList else []

/-- The home node takes a step, and transmits requests to the slave node. -/
def step : Event → ReqTxn × List SNReq
  | .issue req => ({ t with reqSNCopy := some req }, [req])
  | .retryAck pCrdType => (t.handleRetryAck pCrdType, (t.handleRetryAck pCrdType).retry)
  | .pCrdGrant => (t.handlePCrdGrant, t.handlePCrdGrant.retry)

/-- The steps of some events, and what each transmits. -/
def run : ReqTxn → List Event → ReqTxn × List (List SNReq)
  | t, [] => (t, [])
  | t, e :: es => ((run (t.step e).1 es).1, (t.step e).2 :: (run (t.step e).1 es).2)

end ReqTxn

/-- What the slave node answers to a request, before it takes it. -/
inductive Answer where
  | accepted
  | retryAckFirst (pCrdType : ℕ)
  | pCrdGrantFirst (pCrdType : ℕ)
  deriving DecidableEq

/-- A request to the slave node, and the answer. -/
structure Round where
  opcode : ℕ
  address : Addr
  txnID : BitVec 8
  answer : Answer
  deriving DecidableEq

namespace Round

variable (r : Round)

/-- The request as it is built, with `AllowRetry`. -/
def request : SNReq := { opcode := r.opcode, address := r.address, txnID := r.txnID }

def events : List Event :=
  match r.answer with
  | .accepted => [.issue r.request]
  | .retryAckFirst t => [.issue r.request, .retryAck t, .pCrdGrant]
  | .pCrdGrantFirst t => [.issue r.request, .pCrdGrant, .retryAck t]

def retried : Bool := decide (r.answer ≠ .accepted)

/-- **The request is issued again once if it is refused**, when both messages are there, without `AllowRetry` and with the
type of the credit; and nothing else is issued. -/
def Right (sent : List (List SNReq)) : Prop :=
  match r.answer with
  | .accepted => sent = [[r.request]]
  | .retryAckFirst t | .pCrdGrantFirst t => sent = [[r.request], [], [{ r.request with allowRetry := false, pCrdType := t }]]

instance (sent : List (List SNReq)) : Decidable (r.Right sent) := by
  unfold Right
  split <;> infer_instance

end Round

/-- A request is served: what is transmitted in each round. -/
def serve : ReqTxn → List Round → List (Round × List (List SNReq))
  | _, [] => []
  | t, r :: rs => (r, (t.run r.events).2) :: serve (t.run r.events).1 rs

/-! ### `SlaveNode_F` -/

/-- `b_transport_rxreq`: with the toggle, and what is answered. -/
def answer (toggle : Bool) (req : SNReq) : Bool × Answer :=
  if req.allowRetry = true then (!toggle, if toggle = false then .retryAckFirst 0 else .accepted) else (toggle, .accepted)

/-- The answers to some requests, one behind the other. -/
def answers : Bool → List SNReq → List Round
  | _, [] => []
  | toggle, req :: reqs => ⟨req.opcode, req.address, req.txnID, (answer toggle req).2⟩ :: answers (answer toggle req).1 reqs

/-! ### Rounds -/

/-- No request was refused yet. -/
def ReqTxn.Fresh (t : ReqTxn) : Prop := t.gotRetryAck = false ∧ t.gotPCrdGrant = false

/-- A request was refused before. -/
def ReqTxn.Stale (t : ReqTxn) : Prop := t.gotRetryAck = true ∧ t.gotPCrdGrant = true

variable {t : ReqTxn} {r : Round} {rs : List Round}

theorem run_of_accepted (h : r.answer = .accepted) : (t.run r.events).2 = [[r.request]] ∧ (t.run r.events).1.gotRetryAck = t.gotRetryAck ∧
    (t.run r.events).1.gotPCrdGrant = t.gotPCrdGrant := by
  rw [Round.events, h]
  exact ⟨rfl, rfl, rfl⟩

theorem right_of_accepted (h : r.answer = .accepted) : r.Right (t.run r.events).2 := by
  rw [Round.Right, h]
  exact (run_of_accepted h).1

/-- The first request that is refused is issued again. -/
theorem right_of_fresh (ht : t.Fresh) : r.Right (t.run r.events).2 := by
  obtain ⟨hack, hgrant⟩ := ht
  cases h : r.answer with
  | accepted => exact right_of_accepted h
  | retryAckFirst p =>
    rw [Round.Right, Round.events, h]
    simp [ReqTxn.run, ReqTxn.step, ReqTxn.handleRetryAck, ReqTxn.handlePCrdGrant, ReqTxn.retry, ReqTxn.retryRequest, hgrant]
  | pCrdGrantFirst p =>
    rw [Round.Right, Round.events, h]
    simp [ReqTxn.run, ReqTxn.step, ReqTxn.handleRetryAck, ReqTxn.handlePCrdGrant, ReqTxn.retry, ReqTxn.retryRequest, hack]

/-- The next one is issued at the first message already. -/
theorem not_right_of_stale (ht : t.Stale) (hr : r.retried = true) : ¬r.Right (t.run r.events).2 := by
  obtain ⟨hack, hgrant⟩ := ht
  cases h : r.answer with
  | accepted => exact absurd h (of_decide_eq_true hr)
  | retryAckFirst p =>
    rw [Round.Right, Round.events, h]
    simp [ReqTxn.run, ReqTxn.step, ReqTxn.handleRetryAck, ReqTxn.handlePCrdGrant, ReqTxn.retry, ReqTxn.retryRequest, hgrant]
  | pCrdGrantFirst p =>
    rw [Round.Right, Round.events, h]
    simp [ReqTxn.run, ReqTxn.step, ReqTxn.handleRetryAck, ReqTxn.handlePCrdGrant, ReqTxn.retry, ReqTxn.retryRequest, hack]

theorem stale_of_retried (hr : r.retried = true) : (t.run r.events).1.Stale := by
  rw [Round.events]
  cases h : r.answer with
  | accepted => exact absurd h (of_decide_eq_true hr)
  | retryAckFirst p => exact ⟨rfl, rfl⟩
  | pCrdGrantFirst p => exact ⟨rfl, rfl⟩

theorem answer_of_not_retried (hr : ¬r.retried = true) : r.answer = .accepted := by
  simpa [Round.retried] using hr

/-! ### Requests that are served -/

/-- Once a request was refused, no other one may be. -/
theorem right_iff_of_stale (ht : t.Stale) : (∀ p ∈ serve t rs, p.1.Right p.2) ↔ (rs.countP Round.retried) = 0 := by
  induction rs generalizing t with
  | nil => simp [serve]
  | cons r rs ih =>
    rw [serve, List.forall_mem_cons]
    by_cases hr : r.retried = true
    · rw [List.countP_cons_of_pos hr]
      exact iff_of_false (fun h => not_right_of_stale ht hr h.1) (Nat.succ_ne_zero _)
    · have ha := answer_of_not_retried hr
      obtain ⟨-, hack, hgrant⟩ := run_of_accepted (t := t) ha
      rw [List.countP_cons_of_neg hr, ih ⟨hack.trans ht.1, hgrant.trans ht.2⟩]
      exact and_iff_right (right_of_accepted ha)

theorem right_iff_of_fresh (ht : t.Fresh) : (∀ p ∈ serve t rs, p.1.Right p.2) ↔ (rs.countP Round.retried) ≤ 1 := by
  induction rs generalizing t with
  | nil => simp [serve]
  | cons r rs ih =>
    rw [serve, List.forall_mem_cons, and_iff_right (right_of_fresh ht)]
    by_cases hr : r.retried = true
    · rw [List.countP_cons_of_pos hr, right_iff_of_stale (stale_of_retried hr)]
      omega
    · obtain ⟨-, hack, hgrant⟩ := run_of_accepted (t := t) (answer_of_not_retried hr)
      rw [List.countP_cons_of_neg hr, ih ⟨hack.trans ht.1, hgrant.trans ht.2⟩]

/-- **Each refused request is issued again as it is to be, exactly if** one at most is refused of those for a request that is
served. -/
theorem reissued_iff (rs : List Round) : (∀ p ∈ serve {} rs, p.1.Right p.2) ↔ rs.countP Round.retried ≤ 1 :=
  right_iff_of_fresh ⟨rfl, rfl⟩

/-- Dirty data is written out, and then a write is done: both are refused. -/
theorem not_reissued_twice : ¬∀ p ∈ serve {} [⟨0x1c, 0x1000, 0, .retryAckFirst 0⟩, ⟨0x1c, 0x1000, 1, .retryAckFirst 0⟩], p.1.Right p.2 := by decide

/-- `SlaveNode_F` refuses one of two requests. -/
theorem reissued_of_slaveNode (toggle : Bool) (reqs : List SNReq) (h : reqs.length ≤ 2) (hnew : ∀ req ∈ reqs, req.allowRetry = true) :
    ∀ p ∈ serve {} (answers toggle reqs), p.1.Right p.2 := by
  rw [reissued_iff]
  match reqs, h, hnew with
  | [], _, _ => exact Nat.zero_le 1
  | [a], _, _ => exact List.countP_le_length
  | [a, b], _, hnew =>
    have ha : a.allowRetry = true := hnew a (by simp)
    have hb : b.allowRetry = true := hnew b (by simp)
    cases toggle with
    | false => simp [answers, answer, ha, hb, Round.retried]
    | true => simp [answers, answer, ha, hb, Round.retried]

end LibSystemCTLM.Chi.SlaveRetry
