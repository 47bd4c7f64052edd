import LibSystemCTLM.RemotePort.Slots
import Mathlib.Data.List.Nodup
import Mathlib.Data.List.Perm.Subperm

/-!
# Responses are delivered exactly once

What is asked of the slots (`Delivered`): a waiter returns with the response to its own request, none returns
twice, a response that the peer has sent is in the socket, in the slot of the one waiter for it, or delivered,
and when nothing is left to do nobody waits.

A wait of the adaptor's thread may be left behind: a response that comes in an inner wait is put into its slot,
but its own `rp_process` does not return before it has read a response. What is asked holds in runs in which
no request is handled to its end above a wait whose response is there (`responses_of_run`).
-/

namespace LibSystemCTLM.RemotePort.Slots

open Foundation Tlm

/-! ### What is asked -/

/-- The waiter of a frame. -/
def Frame.waiter : Frame → Option Waiter
  | .handling => none
  | .waiting w _ => some w

namespace State

variable (s : State)

/-- All calls of `response_wait`. -/
def waiters : List Waiter := s.blocked.map Prod.fst ++ s.stack.filterMap Frame.waiter

/-- Nothing is under way, and no thread has anything to do. -/
structure Quiet : Prop where
  reading : s.reading = true
  rx : s.port.rx = []
  peer : s.port.peer = []
  blocked : ∀ b ∈ s.blocked, b.2 = false

structure Delivered : Prop where
  running : s.aborted = false
  own : ∀ d ∈ s.port.delivered, d.2.n = d.1.n ∧ d.2.id = d.1.id
  once : (s.port.delivered.map fun d => d.1.n).Nodup
  kept : ∀ r ∈ s.port.answered, Packet.response r ∈ s.port.rx ∨
    (∃ w ∈ s.waiters, w.n = r.n ∧ s.port.resp w.dev w.slot = ⟨r, w.id, true, true⟩) ∨ ∃ w, (w, r) ∈ s.port.delivered
  all : s.Quiet → s.waiters = []

end State

/-- A device that calls has less than 256 requests outstanding, and the next ID is none of theirs. -/
def Distinct (s : State) : Act → Prop
  | .call dev | .nestedCall dev =>
      (s.waiters.filter fun w => decide (w.dev = dev)).length < maxOutstandingTransactions ∧ ∀ w ∈ s.waiters, w.dev = dev → w.id ≠ s.port.rpPktId
  | _ => True

instance : ∀ (s : State) (a : Act), Decidable (Distinct s a)
  | s, .call dev | s, .nestedCall dev =>
    inferInstanceAs (Decidable ((s.waiters.filter fun w => decide (w.dev = dev)).length < maxOutstandingTransactions ∧
      ∀ w ∈ s.waiters, w.dev = dev → w.id ≠ s.port.rpPktId))
  | _, .post | _, .answer _ _ | _, .answerPosted | _, .request | _, .receive | _, .finish | _, .check | _, .wake _ => isTrue trivial

/-- When a request has been handled, the wait below it has not got its response yet. -/
def Fair (s : State) (a : Act) : Prop :=
  Distinct s a ∧
    match a with
    | .finish => ∀ w fs, s.stack = .handling :: .waiting w false :: fs → s.port.valid w = false
    | _ => True

/-! ### The slots -/

/-- The request a packet answers. -/
def Packet.answers : Packet → Option Request
  | .response r => some ⟨r.n, r.dev, r.id⟩
  | .posted | .request => none

namespace Port

variable (p : Port)

/-- The requests whose response is not in a slot. -/
def unanswered : List Request := p.peer ++ p.rx.filterMap Packet.answers

variable {p} {W W' : List Waiter}

/-- The slots are those of the waiters, each with its own response or waiting for it. -/
structure Core (p : Port) (W : List Waiter) : Prop where
  slot : ∀ w ∈ W, w.slot < maxOutstandingTransactions ∧ (p.resp w.dev w.slot).used = true ∧ (p.resp w.dev w.slot).id = w.id
  used : ∀ dev i, (p.resp dev i).used = true → ∃ w ∈ W, w.dev = dev ∧ w.slot = i
  valid : ∀ dev i, (p.resp dev i).valid = true → (p.resp dev i).used = true
  slots : (W.map fun w => (w.dev, w.slot)).Nodup
  ids : (W.map fun w => (w.dev, w.id)).Nodup
  numbers : (W.map (·.n) ++ p.delivered.map fun d => d.1.n).Nodup
  issued : ∀ n ∈ W.map (·.n) ++ p.delivered.map fun d => d.1.n, n < p.issued
  once : (p.unanswered.map (·.n)).Nodup
  pending : ∀ q ∈ p.unanswered, ∃ w ∈ W, w.n = q.n ∧ w.dev = q.dev ∧ w.id = q.id ∧ p.valid w = false
  waits : ∀ w ∈ W, p.valid w = true ∧ (p.resp w.dev w.slot).pkt.n = w.n ∧ (p.resp w.dev w.slot).pkt.id = w.id ∨
    p.valid w = false ∧ ∃ q ∈ p.unanswered, q.n = w.n
  kept : ∀ r ∈ p.answered, Packet.response r ∈ p.rx ∨ (∃ w ∈ W, p.valid w = true ∧ (p.resp w.dev w.slot).pkt = r) ∨ ∃ w, (w, r) ∈ p.delivered
  own : ∀ d ∈ p.delivered, d.2.n = d.1.n ∧ d.2.id = d.1.id

theorem Core.init : Core {} [] :=
  ⟨nofun, nofun, nofun, List.nodup_nil, List.nodup_nil, List.nodup_nil, nofun, List.nodup_nil, fun _ => nofun, nofun, fun _ => nofun, fun _ => nofun⟩

theorem Core.perm (h : Core p W) (hp : W.Perm W') : Core p W' where
  slot w hw := h.slot w (hp.mem_iff.2 hw)
  used dev i hu := by
    obtain ⟨w, hw, hslot⟩ := h.used dev i hu
    exact ⟨w, hp.mem_iff.1 hw, hslot⟩
  valid := h.valid
  slots := (hp.map _).nodup_iff.1 h.slots
  ids := (hp.map _).nodup_iff.1 h.ids
  numbers := ((hp.map _).append_right _).nodup_iff.1 h.numbers
  issued n hn := h.issued n (((hp.map _).append_right _).mem_iff.2 hn)
  once := h.once
  pending q hq := by
    obtain ⟨w, hw, hof⟩ := h.pending q hq
    exact ⟨w, hp.mem_iff.1 hw, hof⟩
  waits w hw := h.waits w (hp.mem_iff.2 hw)
  kept r hr := (h.kept r hr).imp_right fun hkept => hkept.imp_left fun ⟨w, hw, hof⟩ => ⟨w, hp.mem_iff.1 hw, hof⟩
  own := h.own

/-- Requests move from the peer to the socket, and packets that answer none come and go. -/
theorem Core.of_unanswered {p' : Port} (h : Core p W) (hresp : p'.resp = p.resp) (hdelivered : p'.delivered = p.delivered) (hissued : p'.issued = p.issued)
    (hun : p.unanswered.Perm p'.unanswered) (hanswered : ∀ r ∈ p'.answered, Packet.response r ∈ p'.rx ∨ r ∈ p.answered)
    (hrx : ∀ r, Packet.response r ∈ p.rx → Packet.response r ∈ p'.rx) : Core p' W := by
  have hvalid : ∀ w, p'.valid w = p.valid w := fun w => by rw [Port.valid, Port.valid, hresp]
  refine ⟨hresp ▸ h.slot, hresp ▸ h.used, hresp ▸ h.valid, h.slots, h.ids, hdelivered ▸ h.numbers, hdelivered ▸ hissued ▸ h.issued,
    (hun.map _).nodup_iff.1 h.once, fun q hq => ?_, fun w hw => ?_, fun r hr => ?_, hdelivered ▸ h.own⟩
  · obtain ⟨w, hw, hn, hdev, hid, hopen⟩ := h.pending q (hun.mem_iff.2 hq)
    exact ⟨w, hw, hn, hdev, hid, (hvalid w).trans hopen⟩
  · rw [hvalid, hresp]
    refine (h.waits w hw).imp_right fun ⟨hopen, q, hq, hn⟩ => ⟨hopen, q, hun.mem_iff.1 hq, hn⟩
  · rcases hanswered r hr with hin | hr
    · exact .inl hin
    · rw [hresp, hdelivered]
      simp only [hvalid]
      exact (h.kept r hr).imp_left (hrx r)

/-! ### Writing a slot -/

theorem resp_setSlot_self (p : Port) (dev i : ℕ) (s : Slot) : (p.setSlot dev i s).resp dev i = s := by
  simp only [setSlot, Function.update_self]

theorem resp_setSlot_of_ne (p : Port) {dev i dev' i' : ℕ} (s : Slot) (h : (dev', i') ≠ (dev, i)) : (p.setSlot dev i s).resp dev' i' = p.resp dev' i' := by
  by_cases hdev : dev' = dev
  · subst hdev
    have hi : i' ≠ i := fun hi => h (by rw [hi])
    simp only [setSlot, Function.update_self, Function.update_of_ne hi]
  · simp only [setSlot, Function.update_of_ne hdev]

theorem Core.slot_ne {w w' : Waiter} (h : Core p (w :: W)) (hw : w' ∈ W) : (w'.dev, w'.slot) ≠ (w.dev, w.slot) := by
  intro heq
  exact (List.nodup_cons.1 h.slots).1 (List.mem_map.2 ⟨w', hw, heq⟩)

/-! ### `response_wait` -/

/-- There is a free slot while not all are taken. -/
theorem Core.freeSlot {dev : ℕ} (h : Core p W) (hcount : (W.filter fun w => decide (w.dev = dev)).length < maxOutstandingTransactions) :
    ∃ i, p.freeSlot dev = some i ∧ i < maxOutstandingTransactions ∧ (p.resp dev i).used = false := by
  cases hfree : p.freeSlot dev with
  | none =>
    exfalso
    have hall : List.range maxOutstandingTransactions ⊆ (W.filter fun w => decide (w.dev = dev)).map (·.slot) := by
      intro i hi
      have hused := List.find?_eq_none.1 hfree i hi
      rw [Bool.not_eq_true, Bool.not_eq_false'] at hused
      obtain ⟨w, hw, hdev, hslot⟩ := h.used dev i hused
      exact List.mem_map.2 ⟨w, List.mem_filter.2 ⟨hw, decide_eq_true hdev⟩, hslot⟩
    have hlen := (List.subperm_of_subset List.nodup_range hall).length_le
    rw [List.length_range, List.length_map] at hlen
    omega
  | some i =>
    obtain ⟨hused, hi⟩ := List.find?_eq_some_iff_append.1 hfree |>.imp_right fun ⟨a, b, hab, _⟩ => (hab ▸ List.mem_append_right a List.mem_cons_self : i ∈ List.range maxOutstandingTransactions)
    rw [Bool.not_eq_true'] at hused
    exact ⟨i, rfl, List.mem_range.1 hi, hused⟩

theorem Core.call {dev : ℕ} (h : Core p W) (hcount : (W.filter fun w => decide (w.dev = dev)).length < maxOutstandingTransactions)
    (hfresh : ∀ w ∈ W, w.dev = dev → w.id ≠ p.rpPktId) :
    ∃ p' w, p.call dev = some (p', w) ∧ Core p' (w :: W) ∧ p'.valid w = false ∧ ∀ w' ∈ W, p'.valid w' = p.valid w' := by
  obtain ⟨i, hfree, hi, hused⟩ := h.freeSlot hcount
  have hne : ∀ w ∈ W, (w.dev, w.slot) ≠ (dev, i) := by
    intro w hw heq
    obtain ⟨hdev, hslot⟩ := Prod.mk.inj heq
    have hu := (h.slot w hw).2.1
    rw [hdev, hslot, hused] at hu
    cases hu
  have hinvalid : (p.resp dev i).valid = false := by
    rw [← Bool.not_eq_true]
    intro hv
    rw [h.valid dev i hv] at hused
    cases hused
  have hcall : p.call dev = some (p.taken dev i, ⟨p.issued, dev, p.rpPktId, i⟩) := by rw [Port.call, hfree, Option.map_some, taken]
  have hself : (p.taken dev i).resp dev i = { p.resp dev i with id := p.rpPktId, used := true } := resp_setSlot_self p dev i _
  have hother : ∀ w ∈ W, (p.taken dev i).resp w.dev w.slot = p.resp w.dev w.slot := fun w hw => resp_setSlot_of_ne p _ (hne w hw)
  have hopen : (p.taken dev i).valid ⟨p.issued, dev, p.rpPktId, i⟩ = false := (congrArg Slot.valid hself).trans hinvalid
  have hvalid : ∀ w ∈ W, (p.taken dev i).valid w = p.valid w := fun w hw => congrArg Slot.valid (hother w hw)
  have hun : (p.taken dev i).unanswered.Perm (⟨p.issued, dev, p.rpPktId⟩ :: p.unanswered) := by
    change (p.peer ++ [_] ++ _).Perm _
    rw [List.append_assoc]
    exact List.perm_middle
  refine ⟨_, _, hcall, ⟨?_, ?_, ?_, ?_, ?_, ?_, ?_, ?_, ?_, ?_, ?_, h.own⟩, hopen, hvalid⟩
  · refine List.forall_mem_cons.2 ⟨⟨hi, congrArg Slot.used hself, congrArg Slot.id hself⟩, fun w hw => ?_⟩
    rw [hother w hw]
    exact h.slot w hw
  · intro dev' i' hu
    by_cases heq : (dev', i') = (dev, i)
    · obtain ⟨rfl, rfl⟩ := Prod.mk.inj heq
      exact ⟨_, List.mem_cons_self, rfl, rfl⟩
    · rw [taken, resp_setSlot_of_ne p _ heq] at hu
      obtain ⟨w, hw, hof⟩ := h.used dev' i' hu
      exact ⟨w, List.mem_cons_of_mem _ hw, hof⟩
  · intro dev' i' hv
    by_cases heq : (dev', i') = (dev, i)
    · obtain ⟨rfl, rfl⟩ := Prod.mk.inj heq
      exact congrArg Slot.used hself
    · rw [taken, resp_setSlot_of_ne p _ heq] at hv ⊢
      exact h.valid dev' i' hv
  · refine List.nodup_cons.2 ⟨fun hin => ?_, h.slots⟩
    obtain ⟨w, hw, heq⟩ := List.mem_map.1 hin
    exact hne w hw heq
  · refine List.nodup_cons.2 ⟨fun hin => ?_, h.ids⟩
    obtain ⟨w, hw, heq⟩ := List.mem_map.1 hin
    exact hfresh w hw (Prod.mk.inj heq).1 (Prod.mk.inj heq).2
  · exact List.nodup_cons.2 ⟨fun hin => Nat.lt_irrefl _ (h.issued _ hin), h.numbers⟩
  · exact List.forall_mem_cons.2 ⟨Nat.lt_succ_self _, fun n hn => Nat.lt_succ_of_lt (h.issued n hn)⟩
  · refine (hun.map _).nodup_iff.2 (List.nodup_cons.2 ⟨fun hin => ?_, h.once⟩)
    obtain ⟨q, hq, hn⟩ := List.mem_map.1 hin
    obtain ⟨w, hw, hwn, -⟩ := h.pending q hq
    have hlt := h.issued w.n (List.mem_append_left _ (List.mem_map.2 ⟨w, hw, rfl⟩))
    rw [hwn, hn] at hlt
    exact Nat.lt_irrefl _ hlt
  · intro q hq
    rcases List.mem_cons.1 (hun.mem_iff.1 hq) with rfl | hq
    · exact ⟨_, List.mem_cons_self, rfl, rfl, rfl, hopen⟩
    · obtain ⟨w, hw, hn, hdev, hid, hwait⟩ := h.pending q hq
      exact ⟨w, List.mem_cons_of_mem _ hw, hn, hdev, hid, (hvalid w hw).trans hwait⟩
  · refine List.forall_mem_cons.2 ⟨.inr ⟨hopen, _, hun.mem_iff.2 List.mem_cons_self, rfl⟩, fun w hw => ?_⟩
    rw [hother w hw, hvalid w hw]
    exact (h.waits w hw).imp_right fun ⟨hwait, q, hq, hn⟩ => ⟨hwait, q, hun.mem_iff.2 (List.mem_cons_of_mem _ hq), hn⟩
  · intro r hr
    refine (h.kept r hr).imp_right fun hkept => hkept.imp_left fun ⟨w, hw, hv, hpkt⟩ => ⟨w, List.mem_cons_of_mem _ hw, (hvalid w hw).trans hv, ?_⟩
    rw [hother w hw]
    exact hpkt

/-! ### `rp_process` -/

theorem Core.eq_of_id {w w' : Waiter} (h : Core p W) (hw : w ∈ W) (hw' : w' ∈ W) (hdev : w.dev = w'.dev) (hid : w.id = w'.id) : w = w' :=
  List.inj_on_of_nodup_map h.ids hw hw' (Prod.ext hdev hid)

theorem Core.eq_of_slot {w w' : Waiter} (h : Core p W) (hw : w ∈ W) (hw' : w' ∈ W) (hdev : w.dev = w'.dev) (hslot : w.slot = w'.slot) : w = w' :=
  List.inj_on_of_nodup_map h.slots hw hw' (Prod.ext hdev hslot)

/-- The slot that is found is that of the waiter. -/
theorem Core.responseLookup {w : Waiter} (h : Core p W) (hw : w ∈ W) : p.responseLookup w.dev w.id = some w.slot := by
  obtain ⟨hlt, hused, hid⟩ := h.slot w hw
  cases hlookup : p.responseLookup w.dev w.id with
  | none =>
    have hno := List.find?_eq_none.1 hlookup w.slot (List.mem_range.2 hlt)
    rw [hused, hid, beq_self_eq_true] at hno
    exact absurd rfl hno
  | some i =>
    have hfound := List.find?_some hlookup
    rw [Bool.and_eq_true, beq_iff_eq] at hfound
    obtain ⟨w', hw', hdev, hslot⟩ := h.used w.dev i hfound.1
    have hid' : w'.id = w.id := by
      rw [← (h.slot w' hw').2.2, hdev, hslot, hfound.2]
    rw [← hslot, h.eq_of_id hw' hw hdev hid']

theorem Core.eq_of_n {w w' : Waiter} (h : Core p W) (hw : w ∈ W) (hw' : w' ∈ W) (hn : w.n = w'.n) : w = w' :=
  List.inj_on_of_nodup_map (List.nodup_append.1 h.numbers).1 hw hw' hn

/-- A response comes into the slot of its waiter. -/
theorem Core.store {r : Response} {rest : List Packet} (h : Core p W) (hrx : p.rx = .response r :: rest) :
    ∃ w ∈ W, w.dev = r.dev ∧ p.responseLookup r.dev r.id = some w.slot ∧ Core ((p.setRx rest).store r w.slot) W ∧
      ((p.setRx rest).store r w.slot).valid w = true ∧ ∀ w' ∈ W, w' ≠ w → ((p.setRx rest).store r w.slot).valid w' = p.valid w' := by
  have hun : p.unanswered.Perm (⟨r.n, r.dev, r.id⟩ :: ((p.setRx rest).store r 0).unanswered) := by
    rw [unanswered, hrx]
    exact List.perm_middle
  obtain ⟨w, hw, hn, hdev, hid, hopen⟩ := h.pending _ (hun.mem_iff.2 List.mem_cons_self)
  have hdev : w.dev = r.dev := hdev
  have hlookup := h.responseLookup hw
  rw [hid, hdev] at hlookup
  set p' := (p.setRx rest).store r w.slot with hp'
  have hself : p'.resp w.dev w.slot = ⟨r, w.id, true, true⟩ := by
    obtain ⟨-, hused, hwid⟩ := h.slot w hw
    rw [hp', Port.store, hdev, resp_setSlot_self]
    rw [hdev] at hused hwid
    change Slot.mk r (p.resp r.dev w.slot).id (p.resp r.dev w.slot).used true = _
    rw [hused, hwid]
  have hne : ∀ dev i, (dev, i) ≠ (w.dev, w.slot) → p'.resp dev i = p.resp dev i := fun dev i heq => by
    rw [hp', Port.store, resp_setSlot_of_ne _ _ (hdev ▸ heq)]
    rfl
  have hother : ∀ w' ∈ W, w' ≠ w → p'.resp w'.dev w'.slot = p.resp w'.dev w'.slot := fun w' hw' hww =>
    hne _ _ fun heq => hww (h.eq_of_slot hw' hw (Prod.mk.inj heq).1 (Prod.mk.inj heq).2)
  have hvalid : ∀ w' ∈ W, w' ≠ w → p'.valid w' = p.valid w' := fun w' hw' hww => congrArg Slot.valid (hother w' hw' hww)
  have hvalidw : p'.valid w = true := congrArg Slot.valid hself
  have honce : r.n ∉ p'.unanswered.map (·.n) ∧ (p'.unanswered.map (·.n)).Nodup := List.nodup_cons.1 ((hun.map _).nodup_iff.1 h.once)
  refine ⟨w, hw, hdev, hlookup, ⟨fun w' hw' => ?_, fun dev i hu => ?_, fun dev i hv => ?_, h.slots, h.ids, h.numbers, h.issued, honce.2,
    fun q hq => ?_, fun w' hw' => ?_, fun r' hr' => ?_, h.own⟩, hvalidw, hvalid⟩
  · by_cases hww : w' = w
    · rw [hww, hself]
      exact ⟨(h.slot w hw).1, rfl, rfl⟩
    · rw [hother w' hw' hww]
      exact h.slot w' hw'
  · by_cases heq : (dev, i) = (w.dev, w.slot)
    · exact ⟨w, hw, (Prod.mk.inj heq).1.symm, (Prod.mk.inj heq).2.symm⟩
    · exact h.used dev i (hne dev i heq ▸ hu)
  · by_cases heq : (dev, i) = (w.dev, w.slot)
    · rw [(Prod.mk.inj heq).1, (Prod.mk.inj heq).2, hself]
    · rw [hne dev i heq] at hv ⊢
      exact h.valid dev i hv
  · obtain ⟨w', hw', hn', hdev', hid', hopen'⟩ := h.pending q (hun.mem_iff.2 (List.mem_cons_of_mem _ hq))
    have hww : w' ≠ w := by
      rintro rfl
      exact honce.1 (List.mem_map.2 ⟨q, hq, hn'.symm.trans hn⟩)
    exact ⟨w', hw', hn', hdev', hid', (hvalid w' hw' hww).trans hopen'⟩
  · by_cases hww : w' = w
    · rw [hww, hself]
      exact .inl ⟨hvalidw, hn.symm, hid.symm⟩
    · rw [hother w' hw' hww, hvalid w' hw' hww]
      refine (h.waits w' hw').imp_right fun ⟨hopen', q, hq, hn'⟩ => ⟨hopen', ?_⟩
      rcases List.mem_cons.1 (hun.mem_iff.1 hq) with rfl | hq
      · exact absurd (h.eq_of_n hw' hw (hn'.symm.trans hn.symm)) hww
      · exact ⟨q, hq, hn'⟩
  · rcases h.kept r' hr' with hin | ⟨w', hw', hv, hpkt⟩ | hdel
    · rw [hrx] at hin
      rcases List.mem_cons.1 hin with heq | hin
      · obtain rfl := Packet.response.inj heq
        exact .inr (.inl ⟨w, hw, hvalidw, congrArg Slot.pkt hself⟩)
      · exact .inl hin
    · have hww : w' ≠ w := by
        rintro rfl
        rw [hopen] at hv
        cases hv
      refine .inr (.inl ⟨w', hw', (hvalid w' hw' hww).trans hv, ?_⟩)
      rw [hother w' hw' hww]
      exact hpkt
    · exact .inr (.inr hdel)

/-! ### `response_done` -/

theorem Core.take {w : Waiter} (h : Core p (w :: W)) (hv : p.valid w = true) :
    p.idMatches w = true ∧ Core (p.take w) W ∧ ∀ w' ∈ W, (p.take w).valid w' = p.valid w' := by
  have hself : (p.take w).resp w.dev w.slot = { p.resp w.dev w.slot with valid := false, used := false } := resp_setSlot_self p w.dev w.slot _
  have hne : ∀ dev i, (dev, i) ≠ (w.dev, w.slot) → (p.take w).resp dev i = p.resp dev i := fun dev i heq => resp_setSlot_of_ne p _ heq
  have hother : ∀ w' ∈ W, (p.take w).resp w'.dev w'.slot = p.resp w'.dev w'.slot := fun w' hw' => hne _ _ (h.slot_ne hw')
  have hvalid : ∀ w' ∈ W, (p.take w).valid w' = p.valid w' := fun w' hw' => congrArg Slot.valid (hother w' hw')
  obtain ⟨hn, hid⟩ : (p.resp w.dev w.slot).pkt.n = w.n ∧ (p.resp w.dev w.slot).pkt.id = w.id := by
    rcases h.waits w List.mem_cons_self with ⟨-, hof⟩ | ⟨hopen, -⟩
    · exact hof
    · rw [hv] at hopen
      cases hopen
  have hnumbers : (W.map (·.n) ++ (p.take w).delivered.map fun d => d.1.n).Perm ((w :: W).map (·.n) ++ p.delivered.map fun d => d.1.n) := by
    change (W.map (·.n) ++ (p.delivered ++ [(w, (p.resp w.dev w.slot).pkt)]).map fun d => d.1.n).Perm _
    rw [List.map_append, List.map_singleton, ← List.append_assoc]
    exact List.perm_append_singleton _ _
  refine ⟨beq_iff_eq.2 hid, ⟨fun w' hw' => ?_, fun dev i hu => ?_, fun dev i hv' => ?_, (List.nodup_cons.1 h.slots).2, (List.nodup_cons.1 h.ids).2,
    hnumbers.nodup_iff.2 h.numbers, fun n hn => h.issued n (hnumbers.mem_iff.1 hn), h.once, fun q hq => ?_, fun w' hw' => ?_, fun r hr => ?_,
    fun d hd => ?_⟩, hvalid⟩
  · rw [hother w' hw']
    exact h.slot w' (List.mem_cons_of_mem _ hw')
  · by_cases heq : (dev, i) = (w.dev, w.slot)
    · rw [(Prod.mk.inj heq).1, (Prod.mk.inj heq).2, hself] at hu
      cases hu
    · obtain ⟨w', hw', hdev, hslot⟩ := h.used dev i (hne dev i heq ▸ hu)
      rcases List.mem_cons.1 hw' with rfl | hw'
      · exact absurd (by rw [hdev, hslot]) heq
      · exact ⟨w', hw', hdev, hslot⟩
  · by_cases heq : (dev, i) = (w.dev, w.slot)
    · rw [(Prod.mk.inj heq).1, (Prod.mk.inj heq).2, hself] at hv'
      cases hv'
    · rw [hne dev i heq] at hv' ⊢
      exact h.valid dev i hv'
  · obtain ⟨w', hw', hn', hdev, hid', hopen⟩ := h.pending q hq
    rcases List.mem_cons.1 hw' with rfl | hw'
    · rw [hv] at hopen
      cases hopen
    · exact ⟨w', hw', hn', hdev, hid', (hvalid w' hw').trans hopen⟩
  · rw [hother w' hw', hvalid w' hw']
    exact h.waits w' (List.mem_cons_of_mem _ hw')
  · rcases h.kept r hr with hin | ⟨w', hw', hv', hpkt⟩ | ⟨w', hdel⟩
    · exact .inl hin
    · rcases List.mem_cons.1 hw' with rfl | hw'
      · exact .inr (.inr ⟨w', List.mem_append_right _ (List.mem_singleton.2 (by rw [hpkt]))⟩)
      · refine .inr (.inl ⟨w', hw', (hvalid w' hw').trans hv', ?_⟩)
        rw [hother w' hw']
        exact hpkt
    · exact .inr (.inr ⟨w', List.mem_append_left _ hdel⟩)
  · rcases List.mem_append.1 hd with hd | hd
    · exact h.own d hd
    · rw [List.mem_singleton.1 hd]
      exact ⟨hn, hid⟩

end Port

/-! ### What a run keeps -/

namespace State

variable {s s' : State}

/-- What holds along a run whose steps are fair. -/
structure Inv (s : State) : Prop where
  running : s.aborted = false
  core : s.port.Core s.waiters
  notified : ∀ b ∈ s.blocked, s.port.valid b.1 = true → b.2 = true
  reading {w : Waiter} {fs : List Frame} : s.stack = .waiting w false :: fs → s.port.valid w = false
  nested {w : Waiter} {returned : Bool} {fs : List Frame} : .waiting w returned :: fs <:+ s.stack → ∃ fs', fs = .handling :: fs'

theorem Inv.init : Inv {} :=
  ⟨rfl, Port.Core.init, fun _ => nofun, nofun, fun h => absurd (List.suffix_nil.1 h) (List.cons_ne_nil _ _)⟩

theorem mem_waiters_of_blocked {b : Waiter × Bool} (h : b ∈ s.blocked) : b.1 ∈ s.waiters :=
  List.mem_append_left _ (List.mem_map.2 ⟨b, h, rfl⟩)

theorem mem_waiters_of_stack {w : Waiter} {returned : Bool} (h : .waiting w returned ∈ s.stack) : w ∈ s.waiters :=
  List.mem_append_right _ (List.mem_filterMap.2 ⟨_, h, rfl⟩)

theorem Inv.of_port {p : Port} (h : Inv s) (hcore : p.Core s.waiters) (hresp : p.resp = s.port.resp) : Inv { s with port := p } := by
  have hvalid : ∀ w, p.valid w = s.port.valid w := fun w => by rw [Port.valid, Port.valid, hresp]
  exact ⟨h.running, hcore, fun b hb hv => h.notified b hb (hvalid b.1 ▸ hv), fun hstack => (hvalid _).trans (h.reading hstack), h.nested⟩

theorem Inv.call {dev : ℕ} (h : Inv s) (hfair : Fair s (.call dev)) : Inv (s.call dev) := by
  obtain ⟨p, w, hcall, hcore, hopen, hvalid⟩ := h.core.call hfair.1.1 hfair.1.2
  unfold State.call
  rw [hcall]
  refine ⟨h.running, hcore.perm ?_, fun b hb hv => ?_, fun hstack => ?_, h.nested⟩
  · change (w :: (s.blocked.map Prod.fst ++ s.stack.filterMap Frame.waiter)).Perm ((s.blocked ++ [(w, false)]).map Prod.fst ++ s.stack.filterMap Frame.waiter)
    rw [List.map_append, List.map_singleton, List.append_assoc]
    exact List.perm_middle.symm
  · rcases List.mem_append.1 hb with hb | hb
    · exact h.notified b hb ((hvalid b.1 (mem_waiters_of_blocked hb)).symm.trans hv)
    · rw [List.mem_singleton.1 hb] at hv
      exact absurd (hv.symm.trans hopen) Bool.noConfusion
  · exact (hvalid _ (mem_waiters_of_stack (by rw [hstack]; exact List.mem_cons_self))).trans (h.reading hstack)

theorem Inv.nestedCall {dev : ℕ} (h : Inv s) (hfair : Fair s (.nestedCall dev)) (hs : s.nestedCall dev = some s') : Inv s' := by
  obtain ⟨p, w, hcall, hcore, hopen, hvalid⟩ := h.core.call hfair.1.1 hfair.1.2
  unfold State.nestedCall at hs
  split at hs
  · rename_i fs hstack
    rw [hcall] at hs
    obtain rfl := Option.some.inj hs
    refine ⟨h.running, hcore.perm ?_, fun b hb hv => ?_, fun hstack' => ?_, fun hsuffix => ?_⟩
    · exact List.perm_middle.symm
    · exact h.notified b hb ((hvalid b.1 (mem_waiters_of_blocked hb)).symm.trans hv)
    · obtain ⟨hw, -⟩ := List.cons.inj hstack'
      obtain ⟨rfl, -⟩ := Frame.waiting.inj hw
      exact hopen
    · rcases List.suffix_cons_iff.1 hsuffix with heq | hsuffix
      · exact ⟨fs, (List.cons.inj heq).2.trans hstack⟩
      · exact h.nested hsuffix
  · cases hs

/-! ### `rp_process` -/

theorem filterMap_returnStack (fs : List Frame) : (returnStack fs).filterMap Frame.waiter = fs.filterMap Frame.waiter := by
  unfold returnStack
  split
  · rfl
  · rfl

theorem returnStack_ne {w : Waiter} {fs fs' : List Frame} : returnStack fs ≠ .waiting w false :: fs' := by
  intro h
  unfold returnStack at h
  split at h
  · cases h
  · rename_i hno
    exact hno w false fs' h

theorem nested_returnStack {w : Waiter} {returned : Bool} {fs : List Frame} (h : Inv s) (hsuffix : .waiting w returned :: fs <:+ returnStack s.stack) :
    ∃ fs', fs = .handling :: fs' := by
  unfold returnStack at hsuffix
  split at hsuffix
  · rename_i w' r' fs' hstack
    rcases List.suffix_cons_iff.1 hsuffix with heq | hsuffix
    · have htop : s.stack = .waiting w' r' :: fs := by rw [hstack, (List.cons.inj heq).2]
      have hsuffix : .waiting w' r' :: fs <:+ s.stack := htop ▸ List.suffix_rfl
      exact h.nested hsuffix
    · exact h.nested (by rw [hstack]; exact hsuffix.trans (List.suffix_cons _ _))
  · exact h.nested hsuffix

theorem Inv.core_setRx {pkt : Packet} {rest : List Packet} (h : Inv s) (hrx : s.port.rx = pkt :: rest) (hno : pkt.answers = none)
    (hresp : ∀ r, pkt ≠ .response r) : (s.port.setRx rest).Core s.waiters := by
  refine h.core.of_unanswered rfl rfl rfl ?_ (fun r hr => .inr hr) fun r hr => ?_
  · rw [Port.unanswered, hrx, List.filterMap_cons_none hno]
    exact List.Perm.refl _
  · rw [hrx] at hr
    exact (List.mem_cons.1 hr).resolve_left fun heq => hresp r heq.symm

theorem Inv.receive (h : Inv s) (hs : s.receive = some s') : Inv s' := by
  unfold State.receive at hs
  split at hs
  · rename_i rest hreading hrx
    obtain rfl := Option.some.inj hs
    refine ⟨h.running, h.core_setRx hrx rfl nofun, h.notified, nofun, fun hsuffix => ?_⟩
    exact h.nested ((List.suffix_cons_iff.1 hsuffix).resolve_left nofun)
  · rename_i rest hreading hrx
    obtain rfl := Option.some.inj hs
    refine ⟨h.running, ?_, h.notified, fun hstack => absurd hstack returnStack_ne, nested_returnStack h⟩
    have hcore := h.core_setRx hrx rfl nofun
    rwa [waiters, ← filterMap_returnStack] at hcore
  · rename_i r rest hreading hrx
    obtain ⟨w, hw, hdev, hlookup, hcore, hvalidw, hvalid⟩ := h.core.store hrx
    rw [hlookup] at hs
    obtain rfl := Option.some.inj hs
    refine ⟨h.running, ?_, fun b hb hv => ?_, fun hstack => absurd hstack returnStack_ne, nested_returnStack h⟩
    · have hwaiters : ({ s with port := (s.port.setRx rest).store r w.slot, stack := returnStack s.stack, blocked := s.notify r.dev w.slot } : State).waiters = s.waiters := by
        unfold waiters notify
        rw [filterMap_returnStack, List.map_map]
        rfl
      rw [hwaiters]
      exact hcore
    · obtain ⟨b, hb', rfl⟩ := List.mem_map.1 hb
      by_cases hbw : b.1 = w
      · change (b.2 || _) = true
        rw [hbw, decide_eq_true hdev, decide_eq_true rfl]
        exact Bool.or_true _
      · change (b.2 || _) = true
        rw [h.notified b hb' ((hvalid b.1 (mem_waiters_of_blocked hb') hbw).symm.trans hv)]
        rfl
  · cases hs

theorem Inv.finish (h : Inv s) (hfair : Fair s .finish) (hs : s.finish = some s') : Inv s' := by
  unfold State.finish at hs
  split at hs
  · rename_i fs hstack
    obtain rfl := Option.some.inj hs
    refine ⟨h.running, ?_, h.notified, fun hfs => ?_, fun hsuffix => ?_⟩
    · have hcore := h.core
      rw [waiters, hstack] at hcore
      exact hcore
    · have hfs : fs = _ := hfs
      exact hfair.2 _ _ (hstack.trans (by rw [hfs]))
    · exact h.nested (by rw [hstack]; exact hsuffix.trans (List.suffix_cons _ _))
  · cases hs

/-! ### The loop of `response_wait` -/

theorem Inv.check (h : Inv s) (hs : s.check = some s') : Inv s' := by
  unfold State.check at hs
  split at hs
  · rename_i w fs hstack
    have htop : .waiting w true :: fs <:+ s.stack := hstack ▸ List.suffix_rfl
    have hnested : ∃ fs', fs = .handling :: fs' := h.nested htop
    have hsuffix : fs <:+ s.stack := by rw [hstack]; exact List.suffix_cons _ _
    split at hs
    · rename_i hv
      have hperm : s.waiters.Perm (w :: (s.blocked.map Prod.fst ++ fs.filterMap Frame.waiter)) := by
        rw [waiters, hstack]
        exact List.perm_middle
      obtain ⟨hid, hcore, hvalid⟩ := (h.core.perm hperm).take hv
      rw [if_pos hid] at hs
      obtain rfl := Option.some.inj hs
      refine ⟨h.running, hcore, fun b hb hv' => ?_, fun hfs => ?_, fun hs' => h.nested (hs'.trans hsuffix)⟩
      · exact h.notified b hb ((hvalid b.1 (List.mem_append_left _ (List.mem_map.2 ⟨b, hb, rfl⟩))).symm.trans hv')
      · obtain ⟨fs', rfl⟩ := hnested
        cases hfs
    · rename_i hv
      obtain rfl := Option.some.inj hs
      refine ⟨h.running, ?_, h.notified, fun hfs => ?_, fun hs' => ?_⟩
      · have hcore := h.core
        rw [waiters, hstack] at hcore
        exact hcore
      · obtain ⟨hw, -⟩ := List.cons.inj hfs
        obtain ⟨rfl, -⟩ := Frame.waiting.inj hw
        exact Bool.eq_false_iff.2 hv
      · rcases List.suffix_cons_iff.1 hs' with heq | hs'
        · rw [(List.cons.inj heq).2]
          exact hnested
        · exact h.nested (hs'.trans hsuffix)
  · cases hs

theorem Inv.wake {k : ℕ} (h : Inv s) (hs : s.wake k = some s') : Inv s' := by
  unfold State.wake at hs
  split at hs
  · rename_i w hget
    obtain ⟨hk, hw⟩ := List.getElem?_eq_some_iff.1 hget
    split at hs
    · rename_i hv
      have hperm : s.waiters.Perm (w :: ((s.blocked.eraseIdx k).map Prod.fst ++ s.stack.filterMap Frame.waiter)) := by
        have hblocked := (List.getElem_cons_eraseIdx_perm hk).symm.map Prod.fst
        rw [hw] at hblocked
        exact hblocked.append_right _
      obtain ⟨hid, hcore, hvalid⟩ := (h.core.perm hperm).take hv
      rw [if_pos hid] at hs
      obtain rfl := Option.some.inj hs
      refine ⟨h.running, hcore, fun b hb hv' => ?_, fun hstack => ?_, h.nested⟩
      · exact h.notified b (List.mem_of_mem_eraseIdx hb) ((hvalid b.1 (List.mem_append_left _ (List.mem_map.2 ⟨b, hb, rfl⟩))).symm.trans hv')
      · exact (hvalid _ (List.mem_append_right _ (List.mem_filterMap.2 ⟨_, hstack ▸ List.mem_cons_self, rfl⟩))).trans (h.reading hstack)
    · rename_i hv
      obtain rfl := Option.some.inj hs
      refine ⟨h.running, ?_, fun b hb hv' => ?_, h.reading, h.nested⟩
      · have hblocked : (s.blocked.set k (w, false)).map Prod.fst = s.blocked.map Prod.fst := by
          have hself := @List.set_getElem_self _ (s.blocked.map Prod.fst) k (by rw [List.length_map]; exact hk)
          rw [List.getElem_map, hw] at hself
          rw [List.map_set]
          exact hself
        have hcore := h.core
        rw [waiters, ← hblocked] at hcore
        exact hcore
      · rcases List.mem_or_eq_of_mem_set hb with hb | rfl
        · exact h.notified b hb hv'
        · exact absurd hv' hv
  · cases hs

theorem Inv.answer {k : ℕ} {body : List Byte} {p : Port} (h : Inv s) (hp : s.port.answer k body = some p) : Inv { s with port := p } := by
  obtain ⟨q, hget, rfl⟩ := Option.map_eq_some_iff.1 hp
  obtain ⟨hk, hq⟩ := List.getElem?_eq_some_iff.1 hget
  refine h.of_port (h.core.of_unanswered rfl rfl rfl ?_ (fun r hr => ?_) fun r hr => List.mem_append_left _ hr) rfl
  · have hpeer := (List.getElem_cons_eraseIdx_perm hk).symm
    rw [hq] at hpeer
    unfold Port.unanswered
    rw [List.filterMap_append]
    refine (hpeer.append_right _).trans ?_
    rw [← List.append_assoc]
    exact (List.perm_append_singleton _ _).symm
  · rcases List.mem_append.1 hr with hr | hr
    · exact .inr hr
    · rw [List.mem_singleton.1 hr]
      exact .inl (List.mem_append_right _ List.mem_cons_self)

/-- The peer sends a packet that answers nothing. -/
theorem Inv.push {pkt : Packet} (h : Inv s) (hno : pkt.answers = none) : Inv { s with port := s.port.setRx (s.port.rx ++ [pkt]) } := by
  refine h.of_port (h.core.of_unanswered rfl rfl rfl ?_ (fun r hr => .inr hr) fun r hr => List.mem_append_left _ hr) rfl
  have hrx : (s.port.rx ++ [pkt]).filterMap Packet.answers = s.port.rx.filterMap Packet.answers := by
    rw [List.filterMap_append, List.filterMap_cons_none hno, List.filterMap_nil, List.append_nil]
  unfold Port.unanswered Port.setRx
  rw [hrx]

theorem Inv.step {a : Act} (h : Inv s) (hfair : Fair s a) (hs : Slots.step s a = some s') : Inv s' := by
  unfold Slots.step at hs
  rw [if_neg (by rw [h.running]; exact Bool.noConfusion)] at hs
  cases a with
  | call dev =>
    obtain rfl := Option.some.inj hs
    exact h.call hfair
  | nestedCall dev => exact h.nestedCall hfair hs
  | post =>
    obtain rfl := Option.some.inj hs
    exact h.of_port (h.core.of_unanswered rfl rfl rfl (.refl _) (fun r hr => .inr hr) fun r hr => hr) rfl
  | answer k body =>
    obtain ⟨p, hp, rfl⟩ := Option.map_eq_some_iff.1 hs
    exact h.answer hp
  | answerPosted =>
    obtain rfl := Option.some.inj hs
    exact h.push rfl
  | request =>
    obtain rfl := Option.some.inj hs
    exact h.push rfl
  | receive => exact h.receive hs
  | finish => exact h.finish hfair hs
  | check => exact h.check hs
  | wake k => exact h.wake hs

/-- When nothing is under way all have returned: who waits has a response that nobody has taken. -/
theorem Inv.all (h : Inv s) (hquiet : s.Quiet) : s.waiters = [] := by
  have hvalid : ∀ w ∈ s.waiters, s.port.valid w = true := by
    intro w hw
    rcases h.core.waits w hw with ⟨hv, -⟩ | ⟨-, q, hq, -⟩
    · exact hv
    · rw [Port.unanswered, hquiet.peer, hquiet.rx] at hq
      cases hq
  have hblocked : s.blocked = [] := List.eq_nil_iff_forall_not_mem.2 fun b hb => by
    have hnotified := h.notified b hb (hvalid b.1 (mem_waiters_of_blocked hb))
    rw [hquiet.blocked b hb] at hnotified
    cases hnotified
  have hstack : s.stack = [] := by
    have hreading := hquiet.reading
    unfold State.reading at hreading
    split at hreading
    · assumption
    · rename_i w fs hstack
      have hv := hvalid w (mem_waiters_of_stack (by rw [hstack]; exact List.mem_cons_self))
      rw [h.reading hstack] at hv
      cases hv
    · cases hreading
  rw [waiters, hblocked, hstack]
  rfl

end State

/-- In a run whose steps are fair every response is delivered once, to the waiter for its request. -/
theorem responses_of_run {s : State} (h : Reach step Fair {} s) : s.Delivered := by
  have hinv : s.Inv := h.invariant State.Inv.init fun hinv hfair hs => hinv.step hfair hs
  refine ⟨hinv.running, hinv.core.own, (List.nodup_append.1 hinv.core.numbers).2.1, fun r hr => ?_, hinv.all⟩
  refine (hinv.core.kept r hr).imp_right fun hkept => hkept.imp_left fun ⟨w, hw, hv, hpkt⟩ => ⟨w, hw, ?_, Slot.ext hpkt (hinv.core.slot w hw).2.2 (hinv.core.slot w hw).2.1 hv⟩
  · rcases hinv.core.waits w hw with ⟨-, hn, -⟩ | ⟨hopen, -⟩
    · rw [← hpkt, hn]
    · rw [hv] at hopen
      cases hopen

/-- A wait in the adaptor's thread gets its response. -/
theorem responses_nested : ∃ s : State, (s.port.delivered.map fun d => d.2.body) = [[5]] ∧ s.Delivered :=
  ⟨_, rfl, responses_of_run
    (((((((Reach.refl.tail (a := .request) ⟨trivial, trivial⟩ rfl).tail (a := .receive) ⟨trivial, trivial⟩ rfl).tail
      (a := .nestedCall 0) ⟨⟨Nat.zero_lt_succ _, nofun⟩, trivial⟩ rfl).tail (a := .answer 0 [5]) ⟨trivial, trivial⟩ rfl).tail
      (a := .receive) ⟨trivial, trivial⟩ rfl).tail (a := .check) ⟨trivial, trivial⟩ rfl).tail (a := .finish) ⟨trivial, nofun⟩ rfl)⟩

/-- The response for the outer of two waits comes in the inner one, and nothing comes afterwards. -/
theorem not_responses_outer : ¬∀ s : State, Reach step Distinct {} s → s.Delivered := by
  intro h
  let acts : List Act := [.request, .receive, .nestedCall 0, .request, .receive, .nestedCall 1, .answer 0 [5], .receive, .check, .answer 0 [6], .receive, .check, .finish]
  have hok : RunOk step Distinct {} acts := by decide
  have hrun : run step {} acts = some _ := rfl
  cases (h _ (Reach.refl.of_run hok hrun)).all ⟨rfl, rfl, rfl, nofun⟩

end LibSystemCTLM.RemotePort.Slots
