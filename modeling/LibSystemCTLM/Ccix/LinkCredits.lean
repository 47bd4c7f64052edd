import LibSystemCTLM.Ccix.Link
import Mathlib.Algebra.BigOperators.Group.List.Basic
import Mathlib.Data.List.Perm.Basic

/-!
# The credits of a CCIX link

A credit is with the sender, spent on a message that is queued or under way, spent on a transaction of
the receiver, with the receiver again, or under way to the sender: together `NumIDs` of each type
(`Conserved`). `Port.sender` counts what a port has of the credits it sends with, `Port.receiver` what it
has of those it receives with. A step of one port leaves both as they are, and a message that arrives
takes what it stands for from one port to the other (`Moves`).

This holds of runs without atomics, whose data credit is given back but was never taken
(`credits_of_reach`). A snoop whose thread has waited is sent without looking at the credits again, and
the snoop credits that come with another message are read where those for data are.
-/

namespace LibSystemCTLM.Ccix

open Foundation

/-! ### What is counted -/

/-- A request with data: one for which the receiver makes a data message. -/
def carriesData (reqOp : BitVec 8) : Bool := isCCIXAtomic reqOp || (toCHI reqOp).any isWrite

/-- The credits a message is sent with. -/
def Body.uses : Body → CreditType → ℕ
  | .req _ _ _, .req => 1
  | .req _ reqOp _, .data => (carriesData reqOp).toNat
  | .snpReq, .snoop => 1
  | _, _ => 0

/-- The credits a message brings. -/
def Txn.grants (t : Txn) (k : CreditType) : ℕ :=
  (msgCreditField t.msgCredit k).toNat + match t.body with
    | .creditGrant c => (c k).toNat
    | _ => 0

namespace Port

variable (p : Port)

/-- What is queued or under way. -/
def sent : List Txn := p.txList ++ p.wire

/-- The credits of the transactions at the receiver. -/
def held : CreditType → ℕ
  | .req => p.hn.length
  | .data => p.hn.countP fun e => carriesData e.reqOp
  | .snoop => p.rnSnpReq.length
  | .misc => 0

/-- What the port has of the credits it sends with. -/
def sender (k : CreditType) : ℕ := (p.rxCredits k).toNat + (p.sent.map fun t => t.body.uses k).sum

/-- What the port has of the credits it receives with. -/
def receiver (k : CreditType) : ℕ := (p.txCredits k).toNat + (p.sent.map fun t => t.grants k).sum + p.held k

end Port

/-- The credits of one type that port `e` sends with, wherever they are. -/
def Sys.total (s : Sys) (e : End) (k : CreditType) : ℕ := (s e).sender k + (s e.other).receiver k

/-- No credit is lost, and none is made. -/
def Sys.Conserved (s : Sys) : Prop := ∀ e k, s.total e k = numIDs.toNat

/-- What is sent has its credits: a request one, and one for its data; a snoop one, unless its thread waits. -/
def Sys.Funded (s : Sys) : Act → Prop
  | .request e op _ _ _ => 0 < (s e).rxCredits .req ∧ (isWrite op = true ∨ isAtomic op = true → 0 < (s e).rxCredits .data)
  | .snoop e => 0 < (s e).rxCredits .snoop ∨ (s e).snoop.sent = (s e).sent
  | .resume e => 0 < (s e).rxCredits .snoop
  | _ => True

/-- No atomic is sent, a thread that waited for a snoop credit goes on when there is one, and a message
brings as many snoop credits as data credits. -/
def Sys.Fair (s : Sys) : Act → Prop
  | .request _ op _ _ _ => isAtomic op = false
  | .resume e => (s e).rxCredits .snoop ≠ 0
  | .piggyback _ c => msgCreditField c .snoop = msgCreditField c .data
  | _ => True

instance (s : Sys) : (a : Act) → Decidable (s.Fair a)
  | .request _ _ _ _ _ => inferInstanceAs (Decidable (_ = _))
  | .resume _ => inferInstanceAs (Decidable (_ ≠ _))
  | .piggyback _ _ => inferInstanceAs (Decidable (_ = _))
  | .snoop _ | .transmit _ | .deliver _ | .answer _ _ _ | .retire _ _ | .compAck _ _ | .answerSnp _ _ | .retireSnp _ _ => isTrue trivial

/-! ### Requests without atomics -/

/-- A request that is no atomic, as the home sees it. -/
structure Plain (chiOp reqOp : BitVec 8) : Prop where
  toCHI : toCHI reqOp = some chiOp
  noAtomic : isCCIXAtomic reqOp = false

theorem Plain.carriesData {chiOp reqOp : BitVec 8} (h : Plain chiOp reqOp) : carriesData reqOp = isWrite chiOp := by
  rw [Ccix.carriesData, h.noAtomic, h.toCHI]
  rfl

theorem Plain.isAtomicNonStore {chiOp reqOp : BitVec 8} (h : Plain chiOp reqOp) : isAtomicNonStore reqOp = false := by
  have hall : ∀ op : BitVec 8, isCCIXAtomic op = false → Ccix.isAtomicNonStore op = false := by decide +kernel
  exact hall reqOp h.noAtomic

theorem Plain.isAtomic {chiOp reqOp : BitVec 8} (h : Plain chiOp reqOp) : isAtomic chiOp = false :=
  (isCCIXAtomic_of_toCHI h.toCHI).symm.trans h.noAtomic

/-- Reads and requests without data carry none. -/
theorem isWrite_eq_false {op : BitVec 8} (h : isRead op = true ∨ isDataLess op = true) : isWrite op = false := by
  have hall : ∀ op : BitVec 8, isRead op = true ∨ isDataLess op = true → isWrite op = false := by decide +kernel
  exact hall op h

/-- Only they have a `CompAck`. -/
theorem isWrite_of_expCompAck {op : BitVec 8} (h : (isSnpRead op || isDataLessWithCompAck op) = true) : isWrite op = false := by
  have hall : ∀ op : BitVec 8, (isSnpRead op || isDataLessWithCompAck op) = true → isRead op = true ∨ isDataLess op = true := by decide +kernel
  exact isWrite_eq_false (hall op h)

/-- A message that is sent. -/
structure Txn.Plain (t : Txn) : Prop where
  request : ∀ {chiOp reqOp id}, t.body = .req chiOp reqOp id → Ccix.Plain chiOp reqOp
  msgCredit : msgCreditField t.msgCredit .snoop = msgCreditField t.msgCredit .data

/-- A request at the home. The thread that answered it gives the credits back that it took. -/
structure HNReq.Plain (e : HNReq) : Prop extends Ccix.Plain e.chiOp e.reqOp where
  expCompAck : e.expCompAck = (isSnpRead e.chiOp || isDataLessWithCompAck e.chiOp)
  returning : ∀ {hasData}, e.returning = some hasData → hasData = isWrite e.chiOp

/-- A port of a run without atomics. -/
structure Port.Plain (p : Port) : Prop where
  sent : ∀ t ∈ p.sent, t.Plain
  hn : ∀ e ∈ p.hn, e.Plain

/-! ### Counters -/

namespace LinkCredits

variable {c : LinkCredits} {k : CreditType}

theorem dec_of_ne {k' : CreditType} (h : k' ≠ k) (v : BitVec 32) : c.dec k v k' = c k' := Function.update_of_ne h _ _

theorem inc_of_ne {k' : CreditType} (h : k' ≠ k) (v : BitVec 32) : c.inc k v k' = c k' := Function.update_of_ne h _ _

theorem dec_self (h : 0 < c k) : (c.dec k 1 k).toNat + 1 = (c k).toNat := by
  have hpos : 0 < (c k).toNat := BitVec.lt_def.1 h
  have hle : (1 : BitVec 32) ≤ c k := BitVec.le_def.2 hpos
  rw [dec, Function.update_self, BitVec.toNat_sub_of_le hle]
  exact Nat.sub_add_cancel hpos

theorem inc_self (h : (c k).toNat < numIDs.toNat) : (c.inc k 1 k).toNat = (c k).toNat + 1 := by
  have hlt : (c k).toNat < 256 := h
  have hone : (1 : BitVec 32).toNat = 1 := rfl
  rw [inc, Function.update_self, BitVec.toNat_add, hone, Nat.mod_eq_of_lt (by omega)]

/-- What is granted is taken from what there is. -/
theorem setupCredits_le (c : LinkCredits) (k : CreditType) : c.setupCredits k ≤ c k := by
  unfold setupCredits
  split
  · exact BitVec.le_of_lt ‹_›
  · exact BitVec.le_refl _

theorem afterSetup_add (c : LinkCredits) (k : CreditType) : (c.afterSetup k).toNat + (c.setupCredits k).toNat = (c k).toNat := by
  have hle := c.setupCredits_le k
  rw [afterSetup, BitVec.toNat_sub_of_le hle]
  exact Nat.sub_add_cancel (BitVec.le_def.1 hle)

end LinkCredits

/-! ### Steps of one port -/

/-- A message brings nothing unless it was made to. -/
theorem toNat_msgCreditField_zero (k : CreditType) : (msgCreditField 0 k).toNat = 0 := by cases k <;> rfl

theorem grants_creditGrant (c : LinkCredits) (k : CreditType) : Txn.grants { body := .creditGrant c } k = (c k).toNat := by
  rw [Txn.grants, toNat_msgCreditField_zero, Nat.zero_add]

namespace Port

variable {p q : Port} {i : ℕ} {e : HNReq}

/-- A port that has as much of each kind. -/
def SameCredits (p q : Port) : Prop := ∀ k, q.sender k = p.sender k ∧ q.receiver k = p.receiver k

/-- No more credits than there are. -/
def Bounded (p : Port) : Prop := ∀ k, p.sender k ≤ numIDs.toNat ∧ p.receiver k ≤ numIDs.toNat

theorem sender_push (p : Port) (t : Txn) (k : CreditType) : (p.push t).sender k = p.sender k + t.body.uses k := by
  simp only [sender, sent, push, List.map_append, List.sum_append, List.map_cons, List.map_nil, List.sum_cons, List.sum_nil]
  omega

theorem receiver_push (p : Port) (t : Txn) (k : CreditType) : (p.push t).receiver k = p.receiver k + t.grants k := by
  have hheld : (p.push t).held k = p.held k := by cases k <;> rfl
  rw [receiver, hheld]
  simp only [receiver, sent, push, List.map_append, List.sum_append, List.map_cons, List.map_nil, List.sum_cons, List.sum_nil]
  omega

theorem receiver_of_held {n : ℕ} {k : CreditType} (htx : q.txCredits = p.txCredits) (hsent : q.sent = p.sent)
    (hheld : q.held k = p.held k + n) : q.receiver k = p.receiver k + n := by
  rw [receiver, receiver, htx, hsent, hheld, ← Nat.add_assoc]

/-- A message without credits that needs none. -/
theorem sameCredits_push {b : Body} (hu : ∀ k, b.uses k = 0) (hg : ∀ k, Txn.grants { body := b } k = 0) (p : Port) :
    p.SameCredits (p.push { body := b }) :=
  fun k => ⟨by rw [sender_push, hu, Nat.add_zero], by rw [receiver_push, hg, Nat.add_zero]⟩

theorem SameCredits.trans {r : Port} (h : p.SameCredits q) (h' : q.SameCredits r) : p.SameCredits r :=
  fun k => ⟨(h' k).1.trans (h k).1, (h' k).2.trans (h k).2⟩

theorem taken {chiOp reqOp : BitVec 8} (id : BitVec 8) (hw : p.PassesWait chiOp) (hp : Ccix.Plain chiOp reqOp) (k : CreditType) :
    (((if isWrite chiOp = true then (p.rxCredits.dec .req 1).dec .data 1 else p.rxCredits.dec .req 1) : LinkCredits) k).toNat +
      (Body.req chiOp reqOp id).uses k = (p.rxCredits k).toNat := by
  have hreq := LinkCredits.dec_self hw.1
  split
  · rename_i hwrite
    have hdata := hw.2 hwrite
    rw [← LinkCredits.dec_of_ne (c := p.rxCredits) (k := .req) (by decide) 1] at hdata
    cases k with
    | req => rwa [LinkCredits.dec_of_ne (by decide)]
    | data =>
      rw [Body.uses, hp.carriesData, hwrite, Bool.toNat_true, LinkCredits.dec_self hdata, LinkCredits.dec_of_ne (by decide)]
    | snoop => rw [LinkCredits.dec_of_ne (by decide), LinkCredits.dec_of_ne (by decide)]; rfl
    | misc => rw [LinkCredits.dec_of_ne (by decide), LinkCredits.dec_of_ne (by decide)]; rfl
  · rename_i hwrite
    cases k with
    | req => exact hreq
    | data =>
      rw [Body.uses, hp.carriesData, Bool.eq_false_of_not_eq_true hwrite, LinkCredits.dec_of_ne (by decide)]
      rfl
    | snoop => rw [LinkCredits.dec_of_ne (by decide)]; rfl
    | misc => rw [LinkCredits.dec_of_ne (by decide)]; rfl

/-- A message that is queued with the credits it takes. -/
theorem sameCredits_spend {b : Body} {rx : LinkCredits} (hrx : ∀ k, (rx k).toNat + b.uses k = (p.rxCredits k).toNat)
    (hg : ∀ k, Txn.grants { body := b } k = 0) (sn : Snooper) :
    p.SameCredits ({ p with rxCredits := rx, snooper := sn }.push { body := b }) := by
  intro k
  have hk := hrx k
  have hheld : { p with rxCredits := rx, snooper := sn }.held k = p.held k := by cases k <;> rfl
  constructor
  · rw [sender_push]
    simp only [sender, sent]
    omega
  · rw [receiver_push, hg, receiver, hheld]
    rfl

/-- A request is sent with the credits it takes. -/
theorem sameCredits_transmitReq {chiOp reqOp : BitVec 8} (id : BitVec 8) (hw : p.PassesWait chiOp) (hp : Ccix.Plain chiOp reqOp) :
    p.SameCredits (p.transmitReq chiOp reqOp id) :=
  sameCredits_spend (taken id hw hp) toNat_msgCreditField_zero p.snooper

theorem sameCredits_transmitSnp (h : p.rxCredits .snoop ≠ 0) : p.SameCredits p.transmitSnp := by
  have hpos : 0 < p.rxCredits .snoop := (BitVec.pos_iff_ne_zero _).2 h
  have hnone : ∀ k, Txn.grants { body := .snpReq } k = 0 := toNat_msgCreditField_zero
  refine sameCredits_spend (fun k => ?_) hnone .idle
  cases k with
  | snoop => exact LinkCredits.dec_self hpos
  | req | data | misc =>
    rw [LinkCredits.dec_of_ne (by decide)]
    rfl

theorem sameCredits_snoop (p : Port) : p.SameCredits p.snoop := by
  unfold snoop
  split
  · intro k
    cases k <;> exact ⟨rfl, rfl⟩
  · exact sameCredits_transmitSnp ‹_›

/-- A thread's turn: what there is to grant goes under way, or else the first message that is queued. -/
theorem sameCredits_txThread (h : p.txThread = some q) : p.SameCredits q := by
  intro k
  unfold txThread at h
  split at h
  · cases h
    have hgrant := p.txCredits.afterSetup_add k
    constructor
    · simp only [sender, sent, Body.uses, List.map_append, List.sum_append, List.map_cons, List.map_nil, List.sum_cons, List.sum_nil]
      omega
    · have hheld : held { p with txCredits := p.txCredits.afterSetup, wire := p.wire ++ [{ body := .creditGrant p.txCredits.setupCredits }] } k = p.held k := by
        cases k <;> rfl
      rw [receiver, hheld]
      simp only [receiver, sent, List.map_append, List.sum_append, List.map_cons, List.map_nil, List.sum_cons, List.sum_nil, grants_creditGrant]
      omega
  · cases htx : p.txList with
    | nil =>
      rw [htx] at h
      cases h
    | cons t l =>
      rw [htx] at h
      cases h
      have hheld : held { p with txList := l, wire := p.wire ++ [t] } k = p.held k := by cases k <;> rfl
      rw [receiver, hheld]
      simp only [sender, receiver, sent, htx, List.map_append, List.sum_append, List.map_cons, List.map_nil, List.sum_cons, List.sum_nil]
      omega

/-- The credits of one transaction, and those of the others. -/
theorem held_eraseHN (h : p.hn[i]? = some e) (k : CreditType) :
    held { p with hn := p.hn.eraseIdx i } k + (Body.req e.chiOp e.reqOp e.id).uses k = p.held k := by
  obtain ⟨hi, rfl⟩ := List.getElem?_eq_some_iff.1 h
  have hperm := List.getElem_cons_eraseIdx_perm hi
  cases k with
  | req => exact hperm.length_eq
  | data =>
    have hcount := hperm.countP_eq fun e => carriesData e.reqOp
    rw [List.countP_cons] at hcount
    rw [held, Body.uses, held, ← hcount]
    cases carriesData p.hn[i].reqOp <;> rfl
  | snoop => rfl
  | misc => rfl

/-- What `CCIXReq_Done_HN` gives back. -/
theorem returned {hasData : Bool} (hp : Ccix.Plain e.chiOp e.reqOp) (hdata : hasData = isWrite e.chiOp)
    (hb : ∀ k, (p.txCredits k).toNat + (Body.req e.chiOp e.reqOp e.id).uses k ≤ numIDs.toNat) (k : CreditType) :
    ((p.returnCredits hasData).txCredits k).toNat = (p.txCredits k).toNat + (Body.req e.chiOp e.reqOp e.id).uses k := by
  have hreq := LinkCredits.inc_self (hb .req)
  have hfield := hb .data
  rw [Body.uses, hp.carriesData, ← hdata] at hfield
  unfold returnCredits
  dsimp only
  cases hasData with
  | true =>
    rw [if_pos rfl]
    rw [Bool.toNat_true, ← LinkCredits.inc_of_ne (c := p.txCredits) (k := .req) (by decide) 1] at hfield
    cases k with
    | req => rwa [LinkCredits.inc_of_ne (by decide)]
    | data => rw [LinkCredits.inc_self hfield, Body.uses, hp.carriesData, ← hdata, LinkCredits.inc_of_ne (by decide)]; rfl
    | snoop => rw [LinkCredits.inc_of_ne (by decide), LinkCredits.inc_of_ne (by decide)]; rfl
    | misc => rw [LinkCredits.inc_of_ne (by decide), LinkCredits.inc_of_ne (by decide)]; rfl
  | false =>
    rw [if_neg Bool.false_ne_true]
    cases k with
    | req => exact hreq
    | data => rw [LinkCredits.inc_of_ne (by decide), Body.uses, hp.carriesData, ← hdata]; rfl
    | snoop => rw [LinkCredits.inc_of_ne (by decide)]; rfl
    | misc => rw [LinkCredits.inc_of_ne (by decide)]; rfl

/-- A request that is done gives back what it took. -/
theorem sameCredits_doneHN {hasData : Bool} (h : p.hn[i]? = some e) (hp : Ccix.Plain e.chiOp e.reqOp)
    (hdata : hasData = isWrite e.chiOp) (hb : p.Bounded) : p.SameCredits (p.doneHN i hasData) := by
  have hfit : ∀ k, (p.txCredits k).toNat + (Body.req e.chiOp e.reqOp e.id).uses k ≤ numIDs.toNat := by
    intro k
    have hk := (hb k).2
    rw [receiver, ← held_eraseHN h k] at hk
    omega
  intro k
  have hgiven := returned hp hdata hfit k
  have hheld := held_eraseHN h k
  have hsame : (p.doneHN i hasData).held k = held { p with hn := p.hn.eraseIdx i } k := by cases k <;> rfl
  refine ⟨rfl, ?_⟩
  rw [receiver, receiver, hsame, ← hheld]
  simp only [doneHN, hgiven]
  have hsent : sent { p.returnCredits hasData with hn := p.hn.eraseIdx i } = p.sent := rfl
  rw [hsent]
  omega

theorem sameCredits_doneSnp (hi : i < p.rnSnpReq.length) (hb : p.Bounded) : p.SameCredits (p.doneSnp i) := by
  have hlength := List.length_eraseIdx_add_one hi
  have hsnoop := (hb .snoop).2
  rw [receiver, held] at hsnoop
  have hgiven := LinkCredits.inc_self (c := p.txCredits) (k := .snoop) (by omega)
  intro k
  refine ⟨rfl, ?_⟩
  have hsent : (p.doneSnp i).sent = p.sent := rfl
  rw [receiver, receiver, hsent]
  cases k with
  | snoop =>
    simp only [doneSnp, held, hgiven]
    omega
  | req | data | misc =>
    simp only [doneSnp]
    rw [LinkCredits.inc_of_ne (by decide)]
    rfl

/-- What a thread has still to do with a request does not change what the request took. -/
theorem sameCredits_setHN {e' : HNReq} (h : p.hn[i]? = some e) (he : e'.reqOp = e.reqOp) :
    p.SameCredits { p with hn := p.hn.set i e' } := by
  obtain ⟨hi, rfl⟩ := List.getElem?_eq_some_iff.1 h
  intro k
  refine ⟨rfl, receiver_of_held (n := 0) rfl rfl ?_⟩
  cases k with
  | data =>
    have hmap : (p.hn.set i e').map HNReq.reqOp = p.hn.map HNReq.reqOp := by
      have hlen : i < (p.hn.map HNReq.reqOp).length := by rwa [List.length_map]
      have hget : (p.hn.map HNReq.reqOp)[i] = p.hn[i].reqOp := List.getElem_map _
      rw [List.map_set, he, ← hget, List.set_getElem_self]
    have hcount : ∀ l : List HNReq, (l.countP fun e => carriesData e.reqOp) = (l.map HNReq.reqOp).countP carriesData := by
      intro l
      rw [List.countP_map]
      rfl
    rw [held, held, hcount, hcount, hmap, Nat.add_zero]
  | req => exact List.length_set
  | snoop => rfl
  | misc => rfl

/-- Credits that are sent with a message and not on their own. -/
theorem sameCredits_piggyback {c : BitVec 8} (h : p.piggyback c = some q) : p.SameCredits q := by
  unfold piggyback at h
  cases htx : p.txList with
  | nil =>
    rw [htx] at h
    cases h
  | cons t l =>
    rw [htx] at h
    obtain ⟨hc, h⟩ := Option.ite_none_right_eq_some.1 h
    cases h
    intro k
    have hle := BitVec.le_def.1 (hc.2 k)
    have hsub : (p.txCredits k - msgCreditField c k).toNat = (p.txCredits k).toNat - (msgCreditField c k).toNat :=
      BitVec.toNat_sub_of_le (hc.2 k)
    have hgrants : Txn.grants { t with msgCredit := c } k = t.grants k + (msgCreditField c k).toNat := by
      rw [Txn.grants, Txn.grants, hc.1, toNat_msgCreditField_zero, Nat.zero_add, Nat.add_comm]
    have hheld : held { p with txCredits := fun k => p.txCredits k - msgCreditField c k, txList := { t with msgCredit := c } :: l } k = p.held k := by
      cases k <;> rfl
    constructor
    · simp only [sender, sent, htx, List.cons_append, List.map_cons, List.sum_cons]
    · rw [receiver, hheld]
      simp only [receiver, sent, htx, List.cons_append, List.map_cons, List.sum_cons, hgrants, hsub]
      omega

/-- The CHI side answers: a request that is done at once gives its credits back before the answer is queued. -/
theorem sameCredits_answer {a : Answer} (h : p.answer i a = some q) (hi : p.hn[i]? = some e) (hp : e.Plain)
    (ha : a.IsFor e.chiOp) (hb : p.Bounded) : p.SameCredits q := by
  have hcompData : ∀ k, Txn.grants { body := .compData } k = 0 := toNat_msgCreditField_zero
  have hcomp : ∀ k, Txn.grants { body := .comp } k = 0 := toNat_msgCreditField_zero
  unfold answer at h
  rw [hi] at h
  cases a with
  | compData =>
    have hread : isRead e.chiOp = true := ha.resolve_right fun h => Bool.false_ne_true (hp.isAtomic.symm.trans h.1)
    have hdata : isAtomicNonStore e.reqOp = isWrite e.chiOp := by
      rw [hp.isAtomicNonStore, isWrite_eq_false (.inl hread)]
    cases hack : e.expCompAck with
    | true =>
      simp only [Option.bind_eq_bind, Option.bind_some, hack, if_true] at h
      cases h
      exact sameCredits_push (fun _ => rfl) hcompData p
    | false =>
      simp only [Option.bind_eq_bind, Option.bind_some, hack, Bool.false_eq_true, if_false] at h
      cases h
      exact (sameCredits_doneHN hi hp.toPlain hdata hb).trans (sameCredits_push (fun _ => rfl) hcompData _)
  | comp =>
    cases hack : e.expCompAck with
    | true =>
      simp only [Option.bind_eq_bind, Option.bind_some, hack, if_true] at h
      cases h
      exact sameCredits_push (fun _ => rfl) hcomp p
    | false =>
      simp only [Option.bind_eq_bind, Option.bind_some, hack, Bool.false_eq_true, if_false] at h
      cases h
      refine SameCredits.trans ?_ (sameCredits_push (fun _ => rfl) hcomp _)
      exact sameCredits_setHN hi rfl
  | dbidResp =>
    simp only [Option.bind_eq_bind, Option.bind_some, hp.isAtomicNonStore, Bool.false_eq_true, if_false] at h
    cases h
    refine SameCredits.trans ?_ (sameCredits_push (fun _ => rfl) hcomp _)
    exact sameCredits_setHN hi rfl

theorem sameCredits_retire (h : p.retire i = some q) (hp : p.Plain) (hb : p.Bounded) : p.SameCredits q := by
  unfold retire at h
  obtain ⟨e, hi, h⟩ := Option.bind_eq_some_iff.1 h
  obtain ⟨hasData, hret, h⟩ := Option.bind_eq_some_iff.1 h
  cases h
  have he := hp.hn e (List.mem_of_getElem? hi)
  exact sameCredits_doneHN hi he.toPlain (he.returning hret) hb

theorem sameCredits_answerSnp (h : p.answerSnp i = some q) : p.SameCredits q := by
  obtain ⟨hi, h⟩ := Option.ite_none_right_eq_some.1 h
  cases h
  have hset : p.SameCredits { p with rnSnpReq := p.rnSnpReq.set i true } := by
    intro k
    refine ⟨rfl, receiver_of_held (n := 0) rfl rfl ?_⟩
    cases k with
    | snoop => exact List.length_set
    | req | data | misc => rfl
  have hnone : ∀ k, Txn.grants { body := .snpResp } k = 0 := toNat_msgCreditField_zero
  exact hset.trans (sameCredits_push (fun _ => rfl) hnone _)

theorem sameCredits_retireSnp (h : p.retireSnp i = some q) (hb : p.Bounded) : p.SameCredits q := by
  obtain ⟨hi, h⟩ := Option.ite_none_right_eq_some.1 h
  cases h
  exact sameCredits_doneSnp (List.getElem?_eq_some_iff.1 hi).1 hb

/-! ### A message that arrives -/

theorem updateRxCredits_credits {c : LinkCredits} {k : CreditType} (hb : p.sender k + (c k).toNat ≤ numIDs.toNat) :
    (p.updateRxCredits c).sender k = p.sender k + (c k).toNat ∧ (p.updateRxCredits c).receiver k = p.receiver k := by
  have hlt : (p.rxCredits k).toNat + (c k).toNat < 2 ^ 32 := by
    rw [sender] at hb
    have hnum : numIDs.toNat = 256 := rfl
    omega
  have hadd : (p.rxCredits k + c k).toNat = (p.rxCredits k).toNat + (c k).toNat := by
    rw [BitVec.toNat_add, Nat.mod_eq_of_lt hlt]
  have hheld : (p.updateRxCredits c).held k = p.held k := by cases k <;> rfl
  constructor
  · rw [sender, sender]
    simp only [updateRxCredits, hadd]
    have hsent : (p.updateRxCredits c).sent = p.sent := rfl
    rw [updateRxCredits] at hsent
    rw [hsent]
    omega
  · rw [receiver, receiver, hheld]
    rfl

/-- The header of a message that brings as many credits for snoops as for data. -/
theorem extractCredit_eq {t : Txn} (ht : t.Plain) : extractCredit t.msgCredit = msgCreditField t.msgCredit := by
  funext k
  cases k with
  | req =>
    rw [msgCreditField, ← BitVec.ushiftRight_zero t.msgCredit]
    rfl
  | data => rfl
  | snoop => exact ht.msgCredit.symm
  | misc => rfl

/-- What `ReceiveCCIX` does with the header. -/
def receiveHeader (p : Port) (t : Txn) : Port :=
  if t.msgCredit = 0 then p else p.updateRxCredits (extractCredit t.msgCredit)

/-- What it does then. -/
def receiveBody (p : Port) : Body → Option Port
  | .req _ reqOp id => p.receiveReq reqOp id
  | .snpReq => some { p with rnSnpReq := p.rnSnpReq ++ [false] }
  | .compData => some p
  | .comp => some p
  | .snpResp => some p
  | .compAck id => p.receiveCompAck id
  | .creditGrant c => some (p.updateRxCredits c)

theorem receive_eq (p : Port) (t : Txn) : p.receive t = (p.receiveHeader t).receiveBody t.body := rfl

theorem receiveHeader_credits {t : Txn} {k : CreditType} (ht : t.Plain)
    (hb : p.sender k + (msgCreditField t.msgCredit k).toNat ≤ numIDs.toNat) :
    (p.receiveHeader t).sender k = p.sender k + (msgCreditField t.msgCredit k).toNat ∧ (p.receiveHeader t).receiver k = p.receiver k := by
  unfold receiveHeader
  split
  · rename_i hzero
    rw [hzero, toNat_msgCreditField_zero]
    exact ⟨rfl, rfl⟩
  · rw [extractCredit_eq ht]
    exact updateRxCredits_credits hb

/-- The header leaves all but the credits, and the thread that waits for them. -/
theorem receiveHeader_frame (p : Port) (t : Txn) : (p.receiveHeader t).sent = p.sent ∧ (p.receiveHeader t).hn = p.hn := by
  unfold receiveHeader
  split <;> exact ⟨rfl, rfl⟩

/-- A request that arrives holds what it was sent with. -/
theorem receiveReq_credits {reqOp id : BitVec 8} (chiOp : BitVec 8) (h : p.receiveReq reqOp id = some q) (k : CreditType) :
    q.sender k = p.sender k ∧ q.receiver k = p.receiver k + (Body.req chiOp reqOp id).uses k := by
  obtain ⟨chiOp', -, rfl⟩ := Option.map_eq_some_iff.1 h
  refine ⟨rfl, receiver_of_held rfl rfl ?_⟩
  cases k with
  | req => exact List.length_append
  | data =>
    rw [held, List.countP_append, List.countP_singleton, held, Body.uses]
    cases carriesData reqOp <;> rfl
  | snoop => rfl
  | misc => rfl

theorem receiveSnp_credits (p : Port) (k : CreditType) : sender { p with rnSnpReq := p.rnSnpReq ++ [false] } k = p.sender k ∧
    receiver { p with rnSnpReq := p.rnSnpReq ++ [false] } k = p.receiver k + Body.snpReq.uses k := by
  refine ⟨rfl, receiver_of_held rfl rfl ?_⟩
  cases k with
  | snoop => exact List.length_append
  | req | data | misc => rfl

/-- A `CompAck` is for a request without data. -/
theorem sameCredits_receiveCompAck {id : BitVec 8} (h : p.receiveCompAck id = some q) (hp : p.Plain) (hb : p.Bounded) :
    p.SameCredits q := by
  unfold receiveCompAck at h
  split at h
  · rename_i i hfind
    obtain ⟨hack, h⟩ := Option.ite_none_right_eq_some.1 h
    cases h
    obtain ⟨e, hi, hack⟩ := Option.map_eq_some_iff.1 hack
    have he := hp.hn e (List.mem_of_getElem? hi)
    have hwrite := isWrite_of_expCompAck (he.expCompAck.symm.trans hack)
    exact sameCredits_doneHN hi he.toPlain hwrite.symm hb
  · cases h

/-- What was sent with a message is the receiver's, and what it brings the sender's. -/
theorem receiveHeader_plain {t : Txn} (hp : p.Plain) : (p.receiveHeader t).Plain := by
  obtain ⟨hsent, hhn⟩ := receiveHeader_frame p t
  exact ⟨hsent ▸ hp.sent, hhn ▸ hp.hn⟩

theorem receiveBody_credits {b : Body} (h : p.receiveBody b = some q) (hp : p.Plain)
    (hb : ∀ k, p.sender k + Txn.grants { body := b } k ≤ numIDs.toNat ∧ p.receiver k ≤ numIDs.toNat) (k : CreditType) :
    q.sender k = p.sender k + Txn.grants { body := b } k ∧ q.receiver k = p.receiver k + b.uses k := by
  have hnone : p.sender k = p.sender k + (msgCreditField 0 k).toNat := by
    rw [toNat_msgCreditField_zero, Nat.add_zero]
  have hbounded : p.Bounded := fun k => ⟨Nat.le_trans (Nat.le_add_right _ _) (hb k).1, (hb k).2⟩
  cases b with
  | req chiOp reqOp id =>
    obtain ⟨hs, hr⟩ := receiveReq_credits chiOp h k
    exact ⟨hs.trans hnone, hr⟩
  | snpReq =>
    cases h
    obtain ⟨hs, hr⟩ := receiveSnp_credits p k
    exact ⟨hs.trans hnone, hr⟩
  | compData | comp | snpResp =>
    cases h
    exact ⟨hnone, rfl⟩
  | compAck id =>
    obtain ⟨hs, hr⟩ := sameCredits_receiveCompAck h hp hbounded k
    exact ⟨hs.trans hnone, hr⟩
  | creditGrant c =>
    cases h
    have hk := (hb k).1
    rw [grants_creditGrant] at hk ⊢
    exact updateRxCredits_credits hk

/-- What was sent with a message is the receiver's, and what it brings the sender's. -/
theorem receive_credits {t : Txn} (h : p.receive t = some q) (ht : t.Plain) (hp : p.Plain)
    (hb : ∀ k, p.sender k + t.grants k ≤ numIDs.toNat ∧ p.receiver k ≤ numIDs.toNat) (k : CreditType) :
    q.sender k = p.sender k + t.grants k ∧ q.receiver k = p.receiver k + t.body.uses k := by
  have hgrants : ∀ k, t.grants k = (msgCreditField t.msgCredit k).toNat + Txn.grants { body := t.body } k := by
    intro k
    rw [Txn.grants, Txn.grants, toNat_msgCreditField_zero, Nat.zero_add]
  have hheader : ∀ k, (p.receiveHeader t).sender k = p.sender k + (msgCreditField t.msgCredit k).toNat ∧
      (p.receiveHeader t).receiver k = p.receiver k := by
    intro k
    have hk := (hb k).1
    rw [hgrants] at hk
    exact receiveHeader_credits ht (by omega)
  rw [receive_eq] at h
  obtain ⟨hs, hr⟩ := receiveBody_credits h (receiveHeader_plain hp) (fun k => by
    rw [(hheader k).1, (hheader k).2, Nat.add_assoc, ← hgrants]
    exact hb k) k
  rw [hs, hr, (hheader k).1, (hheader k).2, Nat.add_assoc, ← hgrants]
  exact ⟨rfl, rfl⟩

/-! ### Ports without atomics -/

theorem msgCreditField_zero : msgCreditField 0 .snoop = msgCreditField 0 .data :=
  BitVec.eq_of_toNat_eq ((toNat_msgCreditField_zero _).trans (toNat_msgCreditField_zero _).symm)

theorem plain_of_body {b : Body} (h : ∀ chiOp reqOp id, b ≠ .req chiOp reqOp id) : Txn.Plain { body := b } :=
  ⟨fun hb => absurd hb (h _ _ _), msgCreditField_zero⟩

theorem Plain.push (hp : p.Plain) {t : Txn} (ht : t.Plain) : (p.push t).Plain := by
  refine ⟨fun t' ht' => ?_, hp.hn⟩
  rcases List.mem_append.1 ht' with hmem | hmem
  · rcases List.mem_append.1 hmem with hmem | hmem
    · exact hp.sent t' (List.mem_append_left _ hmem)
    · rwa [List.mem_singleton.1 hmem]
  · exact hp.sent t' (List.mem_append_right _ hmem)

theorem Plain.doneHN (hp : p.Plain) (i : ℕ) (hasData : Bool) : (p.doneHN i hasData).Plain :=
  ⟨hp.sent, fun e he => hp.hn e (List.mem_of_mem_eraseIdx he)⟩

theorem Plain.setHN (hp : p.Plain) (i : ℕ) (he : e.Plain) : Port.Plain { p with hn := p.hn.set i e } := by
  refine ⟨hp.sent, fun e' he' => ?_⟩
  rcases List.mem_or_eq_of_mem_set he' with hmem | rfl
  · exact hp.hn e' hmem
  · exact he

theorem Plain.transmitReq (hp : p.Plain) {chiOp reqOp id : BitVec 8} (h : Ccix.Plain chiOp reqOp) : (p.transmitReq chiOp reqOp id).Plain := by
  have hreq : Txn.Plain { body := .req chiOp reqOp id } := by
    refine ⟨fun hb => ?_, msgCreditField_zero⟩
    cases hb
    exact h
  have hrx : Port.Plain { p with rxCredits := if isWrite chiOp = true then (p.rxCredits.dec .req 1).dec .data 1 else p.rxCredits.dec .req 1 } :=
    ⟨hp.sent, hp.hn⟩
  exact hrx.push hreq

theorem Plain.transmitSnp (hp : p.Plain) : p.transmitSnp.Plain := by
  have hsnp : Txn.Plain { body := .snpReq } := plain_of_body fun _ _ _ h => by cases h
  have hrx : Port.Plain { p with rxCredits := p.rxCredits.dec .snoop 1, snooper := .idle } := ⟨hp.sent, hp.hn⟩
  exact hrx.push hsnp

theorem Plain.snoop (hp : p.Plain) : p.snoop.Plain := by
  unfold Port.snoop
  split
  · exact ⟨hp.sent, hp.hn⟩
  · exact hp.transmitSnp

theorem Plain.txThread (hp : p.Plain) (h : p.txThread = some q) : q.Plain := by
  unfold Port.txThread at h
  split at h
  · cases h
    refine ⟨fun t ht => ?_, hp.hn⟩
    rcases List.mem_append.1 ht with hmem | hmem
    · exact hp.sent t (List.mem_append_left _ hmem)
    · rcases List.mem_append.1 hmem with hmem | hmem
      · exact hp.sent t (List.mem_append_right _ hmem)
      · rw [List.mem_singleton.1 hmem]
        exact plain_of_body fun _ _ _ h => by cases h
  · cases htx : p.txList with
    | nil =>
      rw [htx] at h
      cases h
    | cons t l =>
      rw [htx] at h
      cases h
      refine ⟨fun t' ht' => hp.sent t' ?_, hp.hn⟩
      simp only [Port.sent, htx, List.mem_append, List.mem_cons, List.not_mem_nil, or_false] at ht' ⊢
      tauto

theorem Plain.piggyback (hp : p.Plain) {c : BitVec 8} (hc : msgCreditField c .snoop = msgCreditField c .data)
    (h : p.piggyback c = some q) : q.Plain := by
  unfold Port.piggyback at h
  cases htx : p.txList with
  | nil =>
    rw [htx] at h
    cases h
  | cons t l =>
    rw [htx] at h
    obtain ⟨-, h⟩ := Option.ite_none_right_eq_some.1 h
    cases h
    have hsent := hp.sent
    simp only [Port.sent, htx, List.cons_append, List.forall_mem_cons] at hsent
    refine ⟨?_, hp.hn⟩
    simp only [Port.sent, List.cons_append, List.forall_mem_cons]
    exact ⟨⟨hsent.1.request, hc⟩, hsent.2⟩

theorem Plain.answer (hp : p.Plain) {a : Answer} (h : p.answer i a = some q) (hi : p.hn[i]? = some e) (ha : a.IsFor e.chiOp) :
    q.Plain := by
  have he := hp.hn e (List.mem_of_getElem? hi)
  have hcompData : Txn.Plain { body := .compData } := plain_of_body fun _ _ _ h => by cases h
  have hcomp : Txn.Plain { body := .comp } := plain_of_body fun _ _ _ h => by cases h
  unfold Port.answer at h
  rw [hi] at h
  simp only [Option.bind_eq_bind, Option.bind_some, he.isAtomicNonStore, Bool.false_eq_true, if_false] at h
  cases a with
  | compData =>
    dsimp only at h
    split at h
    · cases h
      exact hp.push hcompData
    · cases h
      exact (hp.doneHN i false).push hcompData
  | comp =>
    have hdata : isDataLess e.chiOp = true := ha
    dsimp only at h
    split at h
    · cases h
      exact hp.push hcomp
    · cases h
      have he' : HNReq.Plain { e with returning := some (!isDataLess e.chiOp) } := by
        refine ⟨he.toPlain, he.expCompAck, fun hret => ?_⟩
        cases hret
        rw [hdata, isWrite_eq_false (.inr hdata)]
        rfl
      exact (hp.setHN i he').push hcomp
  | dbidResp =>
    have hwrite : isWrite e.chiOp = true := ha.resolve_right fun h => Bool.false_ne_true (he.isAtomic.symm.trans h)
    dsimp only at h
    cases h
    have he' : HNReq.Plain { e with returning := some true } := by
      refine ⟨he.toPlain, he.expCompAck, fun hret => ?_⟩
      cases hret
      exact hwrite.symm
    exact (hp.setHN i he').push hcomp

theorem Plain.retire (hp : p.Plain) (h : p.retire i = some q) : q.Plain := by
  unfold Port.retire at h
  obtain ⟨e, -, h⟩ := Option.bind_eq_some_iff.1 h
  obtain ⟨hasData, -, h⟩ := Option.bind_eq_some_iff.1 h
  cases h
  exact hp.doneHN i hasData

theorem Plain.answerSnp (hp : p.Plain) (h : p.answerSnp i = some q) : q.Plain := by
  obtain ⟨-, h⟩ := Option.ite_none_right_eq_some.1 h
  cases h
  have hresp : Txn.Plain { body := .snpResp } := plain_of_body fun _ _ _ h => by cases h
  have hset : Port.Plain { p with rnSnpReq := p.rnSnpReq.set i true } := ⟨hp.sent, hp.hn⟩
  exact hset.push hresp

theorem Plain.retireSnp (hp : p.Plain) (h : p.retireSnp i = some q) : q.Plain := by
  obtain ⟨-, h⟩ := Option.ite_none_right_eq_some.1 h
  cases h
  exact ⟨hp.sent, hp.hn⟩

theorem Plain.receive (hp : p.Plain) {t : Txn} (ht : t.Plain) (h : p.receive t = some q) : q.Plain := by
  have hheader : (p.receiveHeader t).Plain := receiveHeader_plain hp
  rw [receive_eq] at h
  cases hbody : t.body with
  | req chiOp reqOp id =>
    rw [hbody] at h
    obtain ⟨chiOp', hop, rfl⟩ := Option.map_eq_some_iff.1 h
    refine ⟨hheader.sent, fun e he => ?_⟩
    rcases List.mem_append.1 he with hmem | hmem
    · exact hheader.hn e hmem
    · rw [List.mem_singleton.1 hmem]
      exact ⟨⟨hop, (ht.request hbody).noAtomic⟩, rfl, fun h => by cases h⟩
  | compAck id =>
    rw [hbody] at h
    unfold receiveBody receiveCompAck at h
    dsimp only at h
    split at h
    · obtain ⟨-, h⟩ := Option.ite_none_right_eq_some.1 h
      cases h
      exact hheader.doneHN _ false
    · cases h
  | snpReq | compData | comp | snpResp | creditGrant c =>
    rw [hbody] at h
    cases h
    exact ⟨hheader.sent, hheader.hn⟩

end Port

/-! ### Runs -/

namespace Sys

variable {s s' : Sys} {e : End} {a : Act}

/-- No credit is lost or made, and there are no atomics. -/
structure Inv (s : Sys) : Prop where
  conserved : s.Conserved
  plain : ∀ e, (s e).Plain

theorem other_other (e : End) : e.other.other = e := by cases e <;> rfl

theorem eq_or_eq_other (e e' : End) : e' = e ∨ e' = e.other := by cases e <;> cases e' <;> simp [End.other]

theorem other_ne (e : End) : e.other ≠ e := by cases e <;> exact nofun

/-- The two sums of one port belong to the two directions. -/
theorem Conserved.of_ends (e : End) (h : ∀ k, s.total e k = numIDs.toNat) (h' : ∀ k, s.total e.other k = numIDs.toNat) : s.Conserved := by
  intro e' k
  rcases eq_or_eq_other e e' with rfl | rfl
  · exact h k
  · exact h' k

theorem Conserved.bounded (h : s.Conserved) (e : End) : (s e).Bounded := by
  intro k
  have hsend := h e k
  have hreceive := h e.other k
  rw [total] at hsend hreceive
  rw [other_other] at hreceive
  omega

/-- A step of one port that keeps what the port has. -/
theorem Inv.of_local {f : Port → Option Port} (h : s.Inv) (hs : s.local? e f = some s')
    (hf : ∀ q, f (s e) = some q → (s e).SameCredits q ∧ q.Plain) : s'.Inv := by
  obtain ⟨q, hq, rfl⟩ := Option.map_eq_some_iff.1 hs
  obtain ⟨hsame, hplain⟩ := hf q hq
  have hself : Function.update s e q e = q := Function.update_self ..
  have hother : Function.update s e q e.other = s e.other := Function.update_of_ne (other_ne e) ..
  constructor
  · refine Conserved.of_ends e (fun k => ?_) (fun k => ?_)
    · rw [total, hself, hother, (hsame k).1]
      exact h.conserved e k
    · rw [total, other_other, hself, hother, (hsame k).2]
      have hk := h.conserved e.other k
      rwa [total, other_other] at hk
  · intro e'
    rcases eq_or_eq_other e e' with rfl | rfl
    · rwa [hself]
    · rw [hother]
      exact h.plain _

end Sys

/-- A port whose wire is left with some of its messages. -/
def Port.setWire (p : Port) (l : List Txn) : Port := { p with wire := l }

theorem Port.credits_of_wire {p : Port} {t : Txn} {l : List Txn} (hwire : p.wire = t :: l) (k : CreditType) :
    p.sender k = (p.setWire l).sender k + t.body.uses k ∧ p.receiver k = (p.setWire l).receiver k + t.grants k := by
  have hheld : (p.setWire l).held k = p.held k := by cases k <;> rfl
  rw [Port.receiver, Port.receiver, hheld]
  simp only [Port.sender, Port.sent, Port.setWire, hwire, List.map_append, List.sum_append, List.map_cons, List.sum_cons]
  omega

theorem Port.Plain.setWire {p : Port} (hp : p.Plain) {t : Txn} {l : List Txn} (hwire : p.wire = t :: l) : (p.setWire l).Plain := by
  refine ⟨fun t' ht' => hp.sent t' ?_, hp.hn⟩
  rcases List.mem_append.1 ht' with hmem | hmem
  · exact List.mem_append_left _ hmem
  · exact List.mem_append_right _ (hwire ▸ List.mem_cons_of_mem t hmem)

namespace Sys

variable {s s' : Sys} {e : End} {a : Act}

/-- A message that arrives takes credits from one port to the other. -/
theorem Inv.deliver (h : s.Inv) (hs : s.deliver e = some s') : s'.Inv := by
  unfold Sys.deliver at hs
  cases hwire : (s e).wire with
  | nil =>
    rw [hwire] at hs
    cases hs
  | cons t l =>
    rw [hwire] at hs
    obtain ⟨q, hq, rfl⟩ := Option.map_eq_some_iff.1 hs
    have hmem : t ∈ (s e).sent := List.mem_append_right _ (hwire ▸ List.mem_cons_self)
    have ht := (h.plain e).sent t hmem
    have hsplit := Port.credits_of_wire hwire
    have hin : ∀ k, (s e).sender k + (s e.other).receiver k = numIDs.toNat := h.conserved e
    have hout : ∀ k, (s e.other).sender k + (s e).receiver k = numIDs.toNat := by
      intro k
      have hk := h.conserved e.other k
      rwa [total, other_other] at hk
    have hmoved := Port.receive_credits hq ht (h.plain e.other) fun k => by
      have hk := hin k
      have hk' := hout k
      rw [(hsplit k).2] at hk'
      omega
    have hself : Function.update (Function.update s e ((s e).setWire l)) e.other q e = (s e).setWire l := by
      rw [Function.update_of_ne (other_ne e).symm, Function.update_self]
    have hother : Function.update (Function.update s e ((s e).setWire l)) e.other q e.other = q := Function.update_self ..
    change Inv (Function.update (Function.update s e ((s e).setWire l)) e.other q)
    constructor
    · refine Conserved.of_ends e (fun k => ?_) (fun k => ?_)
      · have hk := hin k
        rw [(hsplit k).1] at hk
        rw [total, hself, hother, (hmoved k).2]
        omega
      · have hk := hout k
        rw [(hsplit k).2] at hk
        rw [total, other_other, hself, hother, (hmoved k).1]
        omega
    · intro e'
      rcases eq_or_eq_other e e' with rfl | rfl
      · rw [hself]
        exact (h.plain e').setWire hwire
      · rw [hother]
        exact (h.plain _).receive ht hq

theorem inv_init : init.Inv := by
  have hnone : ∀ e, (init e).sent = [] := fun _ => rfl
  refine ⟨fun e k => ?_, fun e => ⟨fun t ht => absurd ht (hnone e ▸ List.not_mem_nil), fun r hr => absurd hr List.not_mem_nil⟩⟩
  cases k <;> rfl

/-- A step without atomics keeps the credits. -/
theorem Inv.step (h : s.Inv) (hok : s.Fair a) (hs : s.step a = some s') : s'.Inv := by
  cases a with
  | request e op resp snoopMe id =>
    obtain ⟨reqOp, hop, hs⟩ := Option.bind_eq_some_iff.1 hs
    refine h.of_local hs fun q hq => ?_
    obtain ⟨hwait, hq⟩ := Option.ite_none_right_eq_some.1 hq
    cases hq
    have hplain : Plain op reqOp := ⟨toCHI_of_outgoing hop, (isCCIXAtomic_of_toCHI (toCHI_of_outgoing hop)).trans hok⟩
    exact ⟨Port.sameCredits_transmitReq id hwait hplain, (h.plain e).transmitReq hplain⟩
  | snoop e =>
    rw [Sys.step] at hs
    refine h.of_local hs fun q hq => ?_
    obtain ⟨-, hq⟩ := Option.ite_none_right_eq_some.1 hq
    cases hq
    exact ⟨Port.sameCredits_snoop _, (h.plain e).snoop⟩
  | resume e =>
    rw [Sys.step] at hs
    refine h.of_local hs fun q hq => ?_
    obtain ⟨-, hq⟩ := Option.ite_none_right_eq_some.1 hq
    cases hq
    exact ⟨Port.sameCredits_transmitSnp hok, (h.plain e).transmitSnp⟩
  | transmit e =>
    rw [Sys.step] at hs
    exact h.of_local hs fun q hq => ⟨Port.sameCredits_txThread hq, (h.plain e).txThread hq⟩
  | deliver e => exact h.deliver hs
  | answer e i a =>
    rw [Sys.step] at hs
    refine h.of_local hs fun q hq => ?_
    obtain ⟨⟨r, hr, -, ha⟩, hq⟩ := Option.ite_none_right_eq_some.1 hq
    have hplain := (h.plain e).hn r (List.mem_of_getElem? hr)
    exact ⟨Port.sameCredits_answer hq hr hplain ha (h.conserved.bounded e), (h.plain e).answer hq hr ha⟩
  | retire e i =>
    rw [Sys.step] at hs
    exact h.of_local hs fun q hq => ⟨Port.sameCredits_retire hq (h.plain e) (h.conserved.bounded e), (h.plain e).retire hq⟩
  | compAck e id =>
    rw [Sys.step] at hs
    refine h.of_local hs fun q hq => ?_
    cases hq
    have hnone : ∀ k, Txn.grants { body := .compAck id } k = 0 := toNat_msgCreditField_zero
    exact ⟨Port.sameCredits_push (fun _ => rfl) hnone _, (h.plain e).push (Port.plain_of_body fun _ _ _ hb => by cases hb)⟩
  | answerSnp e i =>
    rw [Sys.step] at hs
    exact h.of_local hs fun q hq => ⟨Port.sameCredits_answerSnp hq, (h.plain e).answerSnp hq⟩
  | retireSnp e i =>
    rw [Sys.step] at hs
    exact h.of_local hs fun q hq => ⟨Port.sameCredits_retireSnp hq (h.conserved.bounded e), (h.plain e).retireSnp hq⟩
  | piggyback e c =>
    rw [Sys.step] at hs
    exact h.of_local hs fun q hq => ⟨Port.sameCredits_piggyback hq, (h.plain e).piggyback hok hq⟩

/-- A step that is taken has the credits it needs. -/
theorem funded_of_fair (hok : s.Fair a) (hs : s.step a = some s') : s.Funded a := by
  cases a with
  | request e op resp snoopMe id =>
    obtain ⟨reqOp, -, hs⟩ := Option.bind_eq_some_iff.1 hs
    obtain ⟨q, hq, -⟩ := Option.map_eq_some_iff.1 hs
    obtain ⟨hwait, -⟩ := Option.ite_none_right_eq_some.1 hq
    exact ⟨hwait.1, fun hdata => hwait.2 (hdata.resolve_right fun hat => Bool.false_ne_true (hok.symm.trans hat))⟩
  | snoop e =>
    by_cases hzero : (s e).rxCredits .snoop = 0
    · right
      rw [Port.snoop, if_pos hzero]
      rfl
    · exact .inl ((BitVec.pos_iff_ne_zero _).2 hzero)
  | resume e => exact (BitVec.pos_iff_ne_zero _).2 hok
  | transmit _ | deliver _ | answer _ _ _ | retire _ _ | compAck _ _ | answerSnp _ _ | retireSnp _ _ | piggyback _ _ => trivial

/-- A counter that counts credits has no more than there are. -/
theorem Conserved.counters_le (h : s.Conserved) (e : End) (k : CreditType) :
    (s e).rxCredits k ≤ numIDs ∧ (s e).txCredits k ≤ numIDs := by
  obtain ⟨hsend, hreceive⟩ := h.bounded e k
  rw [Port.sender] at hsend
  rw [Port.receiver] at hreceive
  exact ⟨BitVec.le_def.2 (by omega), BitVec.le_def.2 (by omega)⟩

/-- **Credits.** In a run without atomics, whose snoops are sent after a wait only with a credit and whose
messages bring as many snoop credits as data credits, no credit is lost or made, no counter goes below
zero, and what is sent has its credits. -/
theorem credits_of_run (h : Reach step Fair init s) :
    s.Conserved ∧ (∀ e k, (s e).rxCredits k ≤ numIDs ∧ (s e).txCredits k ≤ numIDs) ∧
      ∀ a s', s.Fair a → s.step a = some s' → s.Funded a := by
  have hinv : s.Inv := Reach.invariant inv_init (fun hi hok hs => hi.step hok hs) h
  exact ⟨hinv.conserved, hinv.conserved.counters_le, fun _ _ hok hs => funded_of_fair hok hs⟩

/-- The grants of both ports, and a request of port `a`. -/
def requestRun (op resp : BitVec 8) : List Act :=
  [.transmit .b, .deliver .b, .transmit .b, .deliver .b, .transmit .a, .deliver .a, .transmit .a, .deliver .a,
    .request .a op resp false 0, .transmit .a, .deliver .a]

/-- A write that its home has answered. -/
def writeRun : List Act := requestRun Chi.writeNoSnpFull 0 ++ [.answer .b 0 .dbidResp, .retire .b 0]

theorem credits_of_write : ∃ s, run step init writeRun = some s ∧ s.Conserved ∧
    (∀ e k, (s e).rxCredits k ≤ numIDs ∧ (s e).txCredits k ≤ numIDs) ∧
      ∀ a s', s.Fair a → s.step a = some s' → s.Funded a := by
  have hsome : (run step init writeRun).isSome = true := by decide +kernel
  obtain ⟨s, hs⟩ := Option.isSome_iff_exists.1 hsome
  exact ⟨s, hs, credits_of_run (Reach.refl.of_run (by decide +kernel) hs)⟩

/-- The same with an atomic: one data credit more than there were. -/
theorem not_conserved_atomicStore : ¬ ∀ s, Reach step anyStep init s → s.Conserved := by
  intro h
  have htotal : (run step init (requestRun Chi.atomicStore 0 ++ [.answer .b 0 .dbidResp, .retire .b 0])).map (fun s => s.total .a .data) = some 257 := by
    decide +kernel
  obtain ⟨s, hs, hdata⟩ := Option.map_eq_some_iff.1 htotal
  have hnum := h s (reach_of_run hs) .a .data
  rw [hdata] at hnum
  exact absurd hnum (by decide)

end Sys

end LibSystemCTLM.Ccix
