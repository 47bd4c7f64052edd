import LibSystemCTLM.Chi.TxnDone
import LibSystemCTLM.Foundation.Runs
import Mathlib.Data.List.Nodup
import Mathlib.Data.List.Range
import Mathlib.Logic.Function.Basic

/-!
# Transaction IDs

A node takes the IDs of its transactions from a list, and a destructor puts them back (`TxnIDs`). If the list is empty, `GetID`
waits for an ID to be returned, and then takes the front of the list without another look, though the event wakes all that
wait, and others may have been there first.

As long as none of them finds the list empty, and the messages of each transaction come as it counts on (`InOrder`), the IDs
are used by one transaction at a time, and go back once each, when nothing is outstanding (`safe_of_reach`).
-/

namespace LibSystemCTLM.Chi.TxnIDs

open Foundation

/-- A transaction to be: what it is, and what it will be sent. -/
structure Request where
  kind : Kind
  out : List Msg
  expected : Expected kind out

/-- A transaction, its ID, and what is outstanding. -/
structure Live where
  id : BitVec 8
  txn : Txn
  out : List Msg

/-- A node with transactions `τ`. -/
structure State (τ : Type*) where
  /-- `m_ids`. -/
  ids : List (BitVec 8)
  /-- Who waits for `m_returnIDEvent`. -/
  waiting : List (τ × Request) := []
  /-- Who was woken, but did not run yet. -/
  woken : List (τ × Request) := []
  live : τ → Option Live := fun _ => none
  /-- The front of an empty list was taken. -/
  underflow : Bool := false
  /-- An ID was returned with something outstanding. -/
  early : Bool := false
  /-- How often each ID was taken, and returned. -/
  taken : BitVec 8 → ℕ := fun _ => 0
  returned : BitVec 8 → ℕ := fun _ => 0

inductive Action (τ : Type*) where
  /-- The constructor, up to where it waits. -/
  | getID (t : τ) (r : Request)
  /-- `GetID` goes on behind its `wait`. -/
  | resume (t : τ)
  | deliver (t : τ) (m : Msg)
  | transmit (t : τ)
  /-- `DoneEvent`, and the destructor. -/
  | destroy (t : τ)

namespace State

variable {τ : Type*} [DecidableEq τ] (s : State τ)

/-- Who is in `GetID`. -/
def blocked : List τ := (s.waiting ++ s.woken).map Prod.fst

/-- The end of `GetID`. -/
def take (t : τ) (r : Request) : State τ :=
  match s.ids with
  | [] => { s with underflow := true }
  | id :: ids =>
    { s with ids := ids, live := Function.update s.live t (some ⟨id, .start r.kind, r.out⟩),
             taken := Function.update s.taken id (s.taken id + 1) }

/-- `ReturnID`. -/
def returnID (t : τ) (x : Live) : State τ :=
  { s with ids := s.ids ++ [x.id], live := Function.update s.live t none, waiting := [], woken := s.woken ++ s.waiting,
           early := s.early || !x.out.isEmpty, returned := Function.update s.returned x.id (s.returned x.id + 1) }

def step : Action τ → Option (State τ)
  | .getID t r =>
    if s.live t = none ∧ t ∉ s.blocked then
      if s.ids = [] then some { s with waiting := s.waiting ++ [(t, r)] } else some (s.take t r)
    else none
  | .resume t => (s.woken.find? fun p => p.1 = t).map fun p => ({ s with woken := s.woken.filter fun q => q.1 ≠ t } : State τ).take t p.2
  | .deliver t m => (s.live t).bind fun x =>
    if m ∈ x.out then some { s with live := Function.update s.live t (some ⟨x.id, x.txn.handleRx m, x.out.erase m⟩) } else none
  | .transmit t => (s.live t).bind fun x =>
    if x.txn.toSend = true then some { s with live := Function.update s.live t (some ⟨x.id, x.txn.transmit, x.out⟩) } else none
  | .destroy t => (s.live t).bind fun x => if x.txn.done = true then some (s.returnID t x) else none

end State

/-- A node before its first transaction. -/
def start (τ : Type*) : State τ := { ids := (List.range 256).map (BitVec.ofNat 8) }

/-! ### What is to be kept -/

section Safe

variable {τ : Type*} {s s' : State τ} {t u : τ} {a : Action τ} {r : Request} {x y : Live} {m : Msg} {id : BitVec 8}

/-- **The IDs are used as they should be.** -/
structure Safe (s : State τ) : Prop where
  unique : ∀ t u x y, s.live t = some x → s.live u = some y → x.id = y.id → t = u
  free : ∀ t x, s.live t = some x → x.id ∉ s.ids
  nodup : s.ids.Nodup
  held : ∀ id, id ∉ s.ids → ∃ t x, s.live t = some x ∧ x.id = id
  underflow : s.underflow = false
  /-- An ID is returned once before it is taken again. -/
  once : ∀ id, s.taken id = s.returned id + if id ∈ s.ids then 0 else 1
  /-- No ID was returned with something outstanding, and each is returned behind the last message. -/
  early : s.early = false
  done : ∀ t x, s.live t = some x → x.out = [] → x.txn.toSend = false → x.txn.done = true

/-- What each step must find: an ID for who goes on, and a message in its order. -/
def Kept (s : State τ) : Action τ → Prop
  | .resume _ => s.ids ≠ []
  | .deliver t m => ∀ x, s.live t = some x → InOrder x.txn x.out m
  | _ => True

/-- What is kept beside. -/
structure Inv (s : State τ) : Prop where
  safe : Safe s
  wf : ∀ t x, s.live t = some x → Wf x.txn x.out
  blocked : s.blocked.Nodup
  waits : ∀ t ∈ s.blocked, s.live t = none

theorem some_of_update [DecidableEq τ] {f : τ → Option Live} {o : Option Live} {v : τ} {z : Live} (h : Function.update f t o v = some z) :
    (v = t ∧ o = some z) ∨ (v ≠ t ∧ f v = some z) := by
  by_cases hv : v = t
  · subst hv
    rw [Function.update_self] at h
    exact .inl ⟨rfl, h⟩
  · rw [Function.update_of_ne hv] at h
    exact .inr ⟨hv, h⟩

theorem mem_ids_start (τ : Type*) (id : BitVec 8) : id ∈ (start τ).ids :=
  List.mem_map.2 ⟨id.toNat, List.mem_range.2 id.isLt, (BitVec.ofNat_toNat 8 id).trans (BitVec.setWidth_eq id)⟩

theorem inv_start : Inv (start τ) := by
  have hnodup : (start τ).ids.Nodup := by
    refine List.Nodup.map_on (fun i hi j hj heq => ?_) List.nodup_range
    have htoNat := congrArg BitVec.toNat heq
    rw [BitVec.toNat_ofNat, BitVec.toNat_ofNat, Nat.mod_eq_of_lt (List.mem_range.1 hi), Nat.mod_eq_of_lt (List.mem_range.1 hj)] at htoNat
    exact htoNat
  have hnone : ∀ t x, (start τ).live t ≠ some x := fun t x hx => Option.some_ne_none x hx.symm
  refine ⟨⟨fun t _ x _ hx => absurd hx (hnone t x), fun t x hx => absurd hx (hnone t x), hnodup,
    fun id hid => absurd (mem_ids_start τ id) hid, rfl, fun id => ?_, rfl, fun t x hx => absurd hx (hnone t x)⟩,
    fun t x hx => absurd hx (hnone t x), List.nodup_nil, fun _ _ => rfl⟩
  rw [if_pos (mem_ids_start τ id)]
  rfl

/-- Who waits is of no account for the IDs. -/
theorem inv_blocked (h : Inv s) {waiting woken : List (τ × Request)} (hnodup : ((waiting ++ woken).map Prod.fst).Nodup)
    (hwaits : ∀ t ∈ (waiting ++ woken).map Prod.fst, s.live t = none) : Inv { s with waiting := waiting, woken := woken } :=
  ⟨⟨h.safe.unique, h.safe.free, h.safe.nodup, h.safe.held, h.safe.underflow, h.safe.once, h.safe.early, h.safe.done⟩, h.wf, hnodup, hwaits⟩

variable [DecidableEq τ]

/-- A constructor takes an ID that no one has. -/
theorem inv_take (h : Inv s) (ht : s.live t = none) (hb : t ∉ s.blocked) (hids : s.ids ≠ []) : Inv (s.take t r) := by
  obtain ⟨id, ids, hcons⟩ := List.exists_cons_of_ne_nil hids
  have hnodup := h.safe.nodup
  rw [hcons, List.nodup_cons] at hnodup
  have hfresh : ∀ u x, s.live u = some x → x.id ≠ id ∧ x.id ∉ ids := by
    intro u x hx
    have hfree := h.safe.free u x hx
    rwa [hcons, List.mem_cons, not_or] at hfree
  have hwf : ∀ u x, Function.update s.live t (some ⟨id, .start r.kind, r.out⟩) u = some x → Wf x.txn x.out := by
    intro u x hx
    obtain ⟨-, hx⟩ | ⟨-, hx⟩ := some_of_update hx
    · cases hx
      exact wf_start r.expected
    · exact h.wf u x hx
  rw [State.take, hcons]
  refine ⟨⟨?_, ?_, hnodup.2, ?_, h.safe.underflow, ?_, h.safe.early, ?_⟩, hwf, h.blocked, ?_⟩
  · intro u v x y hx hy hxy
    obtain ⟨hu, hx'⟩ | ⟨-, hx'⟩ := some_of_update hx
    · obtain ⟨hv, -⟩ | ⟨-, hy'⟩ := some_of_update hy
      · rw [hu, hv]
      · cases hx'
        exact absurd hxy.symm (hfresh v y hy').1
    · obtain ⟨-, hy'⟩ | ⟨-, hy'⟩ := some_of_update hy
      · cases hy'
        exact absurd hxy (hfresh u x hx').1
      · exact h.safe.unique u v x y hx' hy' hxy
  · intro u x hx
    obtain ⟨-, hx⟩ | ⟨-, hx⟩ := some_of_update hx
    · cases hx
      exact hnodup.1
    · exact (hfresh u x hx).2
  · intro id' hid'
    by_cases heq : id' = id
    · exact ⟨t, _, Function.update_self _ _ _, heq.symm⟩
    · have hnot : id' ∉ s.ids := by
        rw [hcons, List.mem_cons, not_or]
        exact ⟨heq, hid'⟩
      obtain ⟨u, x, hx, hxid⟩ := h.safe.held id' hnot
      have hne : u ≠ t := by
        rintro rfl
        rw [ht] at hx
        cases hx
      exact ⟨u, x, (Function.update_of_ne hne _ _).trans hx, hxid⟩
  · intro id'
    have honce := h.safe.once id'
    by_cases heq : id' = id
    · subst heq
      rw [hcons, if_pos List.mem_cons_self] at honce
      dsimp only
      rw [Function.update_self, if_neg hnodup.1, honce]
    · have hmem : id' ∈ s.ids ↔ id' ∈ ids := by
        rw [hcons, List.mem_cons]
        exact or_iff_right heq
      dsimp only
      rw [Function.update_of_ne heq, honce]
      simp only [hmem]
  · intro u x hx hout
    exact done_of_outstanding (hout ▸ hwf u x hx)
  · intro u hu
    have hne : u ≠ t := fun heq => hb (heq ▸ hu)
    exact (Function.update_of_ne hne _ _).trans (h.waits u hu)

theorem inv_update (h : Inv s) (hx : s.live t = some x) (hid : y.id = x.id) (hwf : Wf y.txn y.out) :
    Inv { s with live := Function.update s.live t (some y) } := by
  have hwf' : ∀ u z, Function.update s.live t (some y) u = some z → Wf z.txn z.out := by
    intro u z hz
    obtain ⟨-, hz⟩ | ⟨-, hz⟩ := some_of_update hz
    · cases hz
      exact hwf
    · exact h.wf u z hz
  -- each transaction is one that was there, with its ID
  have hold : ∀ u z, Function.update s.live t (some y) u = some z → ∃ z', s.live u = some z' ∧ z'.id = z.id := by
    intro u z hz
    obtain ⟨hu, hz'⟩ | ⟨-, hz'⟩ := some_of_update hz
    · cases hz'
      exact ⟨x, hu ▸ hx, hid.symm⟩
    · exact ⟨z, hz', rfl⟩
  refine ⟨⟨?_, ?_, h.safe.nodup, ?_, h.safe.underflow, h.safe.once, h.safe.early, ?_⟩, hwf', h.blocked, ?_⟩
  · intro u v z₁ z₂ h₁ h₂ heq
    obtain ⟨z₁', h₁', hid₁⟩ := hold u z₁ h₁
    obtain ⟨z₂', h₂', hid₂⟩ := hold v z₂ h₂
    exact h.safe.unique u v z₁' z₂' h₁' h₂' (hid₁.trans (heq.trans hid₂.symm))
  · intro u z hz
    obtain ⟨z', hz', hid'⟩ := hold u z hz
    exact hid' ▸ h.safe.free u z' hz'
  · intro id' hid'
    obtain ⟨u, z, hz, hzid⟩ := h.safe.held id' hid'
    by_cases hu : u = t
    · subst hu
      rw [hx, Option.some.injEq] at hz
      subst hz
      exact ⟨u, y, Function.update_self _ _ _, hid.trans hzid⟩
    · exact ⟨u, z, (Function.update_of_ne hu _ _).trans hz, hzid⟩
  · intro u z hz hout
    exact done_of_outstanding (hout ▸ hwf' u z hz)
  · intro u hu
    have hne : u ≠ t := by
      rintro rfl
      rw [h.waits u hu] at hx
      cases hx
    exact (Function.update_of_ne hne _ _).trans (h.waits u hu)

theorem blocked_returnID (s : State τ) (t : τ) (x : Live) : (s.returnID t x).blocked.Perm s.blocked := by
  rw [State.blocked, State.blocked, State.returnID, List.nil_append]
  exact List.perm_append_comm.map Prod.fst

/-- A destructor returns an ID that no one else has. -/
theorem inv_returnID (h : Inv s) (hx : s.live t = some x) (hout : x.out = []) : Inv (s.returnID t x) := by
  have hnot := h.safe.free t x hx
  have hold : ∀ u z, Function.update s.live t none u = some z → s.live u = some z ∧ z.id ≠ x.id := by
    intro u z hz
    obtain ⟨-, hz⟩ | ⟨hu, hz⟩ := some_of_update hz
    · cases hz
    · exact ⟨hz, fun heq => hu (h.safe.unique u t z x hz hx heq)⟩
  refine ⟨⟨?_, ?_, ?_, ?_, h.safe.underflow, ?_, ?_, ?_⟩, fun u z hz => h.wf u z (hold u z hz).1, ?_, ?_⟩
  · intro u v z₁ z₂ h₁ h₂ heq
    exact h.safe.unique u v z₁ z₂ (hold u z₁ h₁).1 (hold v z₂ h₂).1 heq
  · intro u z hz hmem
    obtain ⟨hz', hne⟩ := hold u z hz
    rcases List.mem_append.1 hmem with hmem | hmem
    · exact h.safe.free u z hz' hmem
    · exact hne (List.mem_singleton.1 hmem)
  · refine List.Nodup.append h.safe.nodup (List.nodup_singleton _) (List.disjoint_singleton.2 hnot)
  · intro id' hid'
    rw [State.returnID, List.mem_append, List.mem_singleton, not_or] at hid'
    obtain ⟨u, z, hz, hzid⟩ := h.safe.held id' hid'.1
    have hne : u ≠ t := by
      rintro rfl
      rw [hx, Option.some.injEq] at hz
      subst hz
      exact hid'.2 hzid.symm
    exact ⟨u, z, (Function.update_of_ne hne _ _).trans hz, hzid⟩
  · intro id'
    have honce := h.safe.once id'
    by_cases heq : id' = x.id
    · subst heq
      rw [if_neg hnot] at honce
      rw [State.returnID]
      dsimp only
      rw [Function.update_self, if_pos (List.mem_append_right _ (List.mem_singleton_self _)), honce]
    · have hmem : id' ∈ s.ids ↔ id' ∈ s.ids ++ [x.id] := by
        rw [List.mem_append, List.mem_singleton]
        exact (or_iff_left heq).symm
      rw [State.returnID]
      dsimp only
      rw [Function.update_of_ne heq, honce]
      simp only [hmem]
  · rw [State.returnID]
    dsimp only
    rw [h.safe.early, hout]
    rfl
  · intro u z hz hz'
    exact done_of_outstanding (hz' ▸ h.wf u z (hold u z hz).1)
  · exact (blocked_returnID s t x).nodup_iff.2 h.blocked
  · intro u hu
    have hwait := h.waits u ((blocked_returnID s t x).mem_iff.1 hu)
    have hne : u ≠ t := by
      rintro rfl
      rw [hwait] at hx
      cases hx
    exact (Function.update_of_ne hne _ _).trans hwait

theorem inv_step (h : Inv s) (hkept : Kept s a) (hs : s.step a = some s') : Inv s' := by
  cases a with
  | getID t r =>
    rw [State.step] at hs
    split_ifs at hs with hfree hids
    · cases hs
      have hperm : (((s.waiting ++ [(t, r)]) ++ s.woken).map Prod.fst).Perm (t :: s.blocked) := by
        rw [State.blocked, List.append_assoc, List.map_append, List.map_append, List.map_append]
        exact List.perm_middle
      refine inv_blocked h (hperm.nodup_iff.2 (List.nodup_cons.2 ⟨hfree.2, h.blocked⟩)) fun u hu => ?_
      rcases List.mem_cons.1 (hperm.mem_iff.1 hu) with rfl | hu
      · exact hfree.1
      · exact h.waits u hu
    · cases hs
      exact inv_take h hfree.1 hfree.2 hids
  | resume t =>
    obtain ⟨p, hp, rfl⟩ := Option.map_eq_some_iff.1 hs
    have hmem := List.mem_of_find?_eq_some hp
    have hpt : p.1 = t := by simpa using List.find?_some hp
    have hwoken : t ∈ s.woken.map Prod.fst := List.mem_map.2 ⟨p, hmem, hpt⟩
    have hnodup := h.blocked
    rw [State.blocked, List.map_append] at hnodup
    have hsub : ((s.waiting ++ s.woken.filter fun q => q.1 ≠ t).map Prod.fst).Sublist s.blocked :=
      (List.filter_sublist.append_left _).map Prod.fst
    have hnot : t ∉ (s.waiting ++ s.woken.filter fun q => q.1 ≠ t).map Prod.fst := by
      rw [List.map_append, List.mem_append, not_or]
      refine ⟨fun hwaiting => (List.nodup_append.1 hnodup).2.2 t hwaiting t hwoken rfl, fun hfilter => ?_⟩
      obtain ⟨q, hq, hqt⟩ := List.mem_map.1 hfilter
      have hne := (List.mem_filter.1 hq).2
      simp [hqt] at hne
    have hlive : s.live t = none := h.waits t (by rw [State.blocked, List.map_append]; exact List.mem_append_right _ hwoken)
    have h' := inv_blocked h (h.blocked.sublist hsub) fun u hu => h.waits u (hsub.subset hu)
    exact inv_take h' hlive hnot hkept
  | deliver t m =>
    obtain ⟨x, hx, hs⟩ := Option.bind_eq_some_iff.1 hs
    split_ifs at hs with hm
    cases hs
    exact inv_update h hx rfl (wf_handleRx (h.wf t x hx) hm (hkept x hx))
  | transmit t =>
    obtain ⟨x, hx, hs⟩ := Option.bind_eq_some_iff.1 hs
    split_ifs at hs
    cases hs
    exact inv_update h hx rfl (wf_transmit (h.wf t x hx))
  | destroy t =>
    obtain ⟨x, hx, hs⟩ := Option.bind_eq_some_iff.1 hs
    split_ifs at hs with hdone
    cases hs
    exact inv_returnID h hx (outstanding_of_done (h.wf t x hx) hdone)

/-- **The IDs are safe in every run**, each step of which takes one only if there is one, and gets the messages in their order. -/
theorem safe_of_reach (h : Reach State.step Kept (start τ) s) : Safe s := (h.invariant inv_start inv_step).safe

end Safe

/-! ### A read with its response apart -/

/-- A read that is sent `RespSepData` and `DataSepResp`. -/
def sepRead : Request where
  kind := .read false true
  out := [.rspSepData, .dataSepResp 64]
  expected := ⟨[64], ⟨by decide, rfl, by decide⟩, .inr rfl⟩

/-- With the response first, the ID is returned when all is there. -/
theorem safe_sepRead : ∃ s, run State.step (start Unit) [.getID () sepRead, .deliver () .rspSepData, .deliver () (.dataSepResp 64),
    .transmit (), .destroy ()] = some s ∧ Safe s := by
  have hrun : run State.step (start Unit) [.getID () sepRead, .deliver () .rspSepData, .deliver () (.dataSepResp 64), .transmit (),
      .destroy ()] = some _ := rfl
  refine ⟨_, hrun, safe_of_reach (Reach.refl.of_run ?_ hrun)⟩
  refine ⟨trivial, ?_⟩
  rintro _ ⟨⟩
  refine ⟨?_, ?_⟩
  · rintro x ⟨⟩ hlen
    cases hlen
  · rintro _ ⟨⟩
    refine ⟨?_, ?_⟩
    · rintro x ⟨⟩ - -
      rfl
    · rintro _ ⟨⟩
      exact ⟨trivial, fun _ _ => ⟨trivial, fun _ _ => trivial⟩⟩

/-- With the data first, it is returned while the response is outstanding. -/
theorem not_safe_sepRead : ∃ s, run State.step (start Unit) [.getID () sepRead, .deliver () (.dataSepResp 64), .transmit (), .destroy ()] = some s ∧
    ¬ Safe s := by
  refine ⟨_, rfl, fun h => ?_⟩
  cases h.early

end LibSystemCTLM.Chi.TxnIDs
