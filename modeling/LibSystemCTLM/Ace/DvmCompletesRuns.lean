import LibSystemCTLM.Ace.DvmCompletes

/-!
# Each DVM Sync gets one Complete

A Complete should go to the port of a Sync once, when all ports that take part have completed it, and for
each Sync (`Completed`).

The code does so in runs (`completed_of_run`) in which a port has one Sync at a time, and some other port
takes part in it, and in which no Complete comes that leaves a tracker the first that is done, whose
Complete is being sent: it stays on the list till then, and would be taken for done once more.
-/

namespace LibSystemCTLM.Ace.Dvm

open Foundation

variable {n : ℕ} {forward : Fin n → Bool}

/-! ### What is asked -/

/-- No Sync gets a Complete twice, or before the ports have completed it, and each gets one. -/
structure Completed (s : State n) : Prop where
  running : s.aborted = false
  own : ∀ c ∈ s.sent, c ∈ s.syncs
  once : s.sent.Nodup
  after : ∀ c ∈ s.sent, ∀ q, c.number ∉ s.owed q
  all : (∀ q, s.owed q = []) → ∀ c ∈ s.syncs, c ∈ s.sent

/-- A port issues a Sync when it has none, and some other port takes part. When a Complete comes that a tracker
waits for as its last, no Complete of a tracker before it is being sent, and otherwise none at all. -/
def Fair (forward : Fin n → Bool) (s : State n) : Act n → Prop
  | .sync p => p ∉ s.list ∧ ∃ q, State.participates forward p q = true
  | .complete p => ∀ l t r, s.list = l ++ t :: r → (∀ u ∈ l, s.portDone u p = true) → s.portDone t p = false →
      ((∀ q, q ≠ p → s.portDone t q = true) → ∀ u ∈ l, u ∉ s.exec) ∧ ((∃ q, q ≠ p ∧ s.portDone t q = false) → s.exec = [])
  | .snoopDone _ => True

/-! ### What a run keeps -/

namespace State

variable {s s' : State n}

/-- What holds along a run whose steps are fair. -/
structure Inv (s : State n) : Prop where
  aborted : s.aborted = false
  running : ∀ p, s.running p = false
  list : s.list.Nodup
  exec : s.exec.Nodup
  done : ∀ t, t ∈ s.exec ↔ t ∈ s.list ∧ s.Done t
  rest : ∀ t, t ∉ s.list → s.Done t
  owed : ∀ q, s.owed q = (s.list.filter fun t => !s.portDone t q).map s.current
  current : ∀ t ∈ s.list, s.sync t ∈ s.syncs
  numbers : ∀ c ∈ s.syncs, c.number < s.syncs.length
  distinct : (s.syncs.map (·.number)).Nodup
  sent : ∀ c ∈ s.sent, c ∈ s.syncs
  once : s.sent.Nodup
  pending : ∀ t ∈ s.list, s.sync t ∈ s.sent ↔ t ∈ s.exec
  kept : ∀ c ∈ s.syncs, c ∈ s.sent ∨ ∃ t ∈ s.list, c = s.sync t

theorem Inv.init : Inv ({} : State n) :=
  ⟨rfl, fun _ => rfl, List.nodup_nil, List.nodup_nil, fun _ => ⟨nofun, nofun⟩, fun _ _ _ => rfl, fun _ => rfl, nofun, nofun, List.nodup_nil, nofun,
    List.nodup_nil, nofun, nofun⟩

theorem Inv.eq_of_number {c c' : Sync n} (h : Inv s) (hc : c ∈ s.syncs) (hc' : c' ∈ s.syncs) (hn : c.number = c'.number) : c = c' :=
  List.inj_on_of_nodup_map h.distinct hc hc' hn

theorem Inv.completed (h : Inv s) : Completed s := by
  refine ⟨h.aborted, h.sent, h.once, fun c hc q hin => ?_, fun howed c hc => ?_⟩
  · rw [h.owed] at hin
    obtain ⟨t, ht, hn⟩ := List.mem_map.1 hin
    obtain ⟨ht, hopen⟩ := List.mem_filter.1 ht
    obtain rfl := h.eq_of_number (h.current t ht) (h.sent c hc) hn
    have hdone := ((h.done t).1 ((h.pending t ht).1 hc)).2 q
    rw [hdone] at hopen
    cases hopen
  · rcases h.kept c hc with hsent | ⟨t, ht, rfl⟩
    · exact hsent
    · refine (h.pending t ht).2 ((h.done t).2 ⟨ht, fun q => ?_⟩)
      have hnone := howed q
      rw [h.owed, List.map_eq_nil_iff, List.filter_eq_nil_iff] at hnone
      have hopen := hnone t ht
      rwa [Bool.not_eq_true, Bool.not_eq_false'] at hopen

/-! ### A Sync -/

theorem startCollectingFor_eq {p : Fin n} (h : s.running p = false) :
    s.startCollectingFor forward p = setRunning
      { s with
        portDone := Function.update s.portDone p fun q => if participates forward p q = true then false else s.portDone p q
        list := s.list ++ [p]
        syncs := s.syncs ++ [⟨s.syncs.length, p⟩]
        current := Function.update s.current p s.syncs.length
        owed := fun q => if participates forward p q = true then s.owed q ++ [s.syncs.length] else s.owed q }
      p :=
  if_neg (by rw [h]; exact Bool.noConfusion)

theorem running_setRunning (h : ∀ p, s.running p = false) (t p : Fin n) : (s.setRunning t).running p = false := by
  by_cases hpt : p = t
  · subst hpt
    exact Function.update_self _ _ _
  · exact (Function.update_of_ne hpt _ _).trans (h p)

theorem Inv.startCollectingFor {p : Fin n} (h : Inv s) (hfair : Fair forward s (.sync p)) : Inv (s.startCollectingFor forward p) := by
  obtain ⟨hp, q₀, hq₀⟩ := hfair
  have hdone := h.rest p hp
  have hne : ∀ t ∈ s.list, t ≠ p := fun t ht htp => hp (htp ▸ ht)
  have heq : s.startCollectingFor forward p = _ := startCollectingFor_eq (h.running p)
  set s₁ := s.startCollectingFor forward p
  have hself : ∀ q, s₁.portDone p q = !participates forward p q := fun q => by
    simp only [heq, setRunning, Function.update_self, hdone q]
    cases participates forward p q <;> rfl
  have hother : ∀ t, t ≠ p → s₁.portDone t = s.portDone t := fun t ht => by
    simp only [heq, setRunning, Function.update_of_ne ht]
  have hopen : ¬s₁.Done p := fun hall => by
    have hp₀ := hall q₀
    rw [hself, hq₀] at hp₀
    cases hp₀
  have hsame : ∀ t, t ≠ p → (s₁.Done t ↔ s.Done t) := fun t ht => by rw [Done, Done, hother t ht]
  have hsync : s₁.sync p = ⟨s.syncs.length, p⟩ := by simp only [sync, heq, setRunning, Function.update_self]
  have hsync' : ∀ t, t ≠ p → s₁.sync t = s.sync t := fun t ht => by simp only [sync, heq, setRunning, Function.update_of_ne ht]
  have hlist : s₁.list = s.list ++ [p] := by rw [heq]; rfl
  have hexec : s₁.exec = s.exec := by rw [heq]; rfl
  have hsyncs : s₁.syncs = s.syncs ++ [⟨s.syncs.length, p⟩] := by rw [heq]; rfl
  have hsent : s₁.sent = s.sent := by rw [heq]; rfl
  have hpexec : p ∉ s.exec := fun hin => hp ((h.done p).1 hin).1
  have hnew : ∀ c ∈ s.syncs, c.number ≠ s.syncs.length := fun c hc => Nat.ne_of_lt (h.numbers c hc)
  refine ⟨by rw [heq]; exact h.aborted, fun t => by rw [heq]; exact running_setRunning h.running p t, ?_, hexec ▸ h.exec, fun t => ?_, fun t ht => ?_, fun q => ?_,
    fun t ht => ?_, fun c hc => ?_, ?_, fun c hc => ?_, hsent ▸ h.once, fun t ht => ?_, fun c hc => ?_⟩
  · rw [hlist]
    exact h.list.append (List.nodup_singleton p) (List.disjoint_singleton.2 hp)
  · rw [hexec, hlist]
    by_cases htp : t = p
    · subst htp
      exact ⟨fun hin => absurd hin hpexec, fun hin => absurd hin.2 hopen⟩
    · rw [h.done t, hsame t htp, List.mem_append, List.mem_singleton, or_iff_left htp]
  · rw [hlist, List.mem_append, List.mem_singleton, not_or] at ht
    exact (hsame t ht.2).2 (h.rest t ht.1)
  · have hold : (s.list.filter fun t => !s₁.portDone t q).map s₁.current = s.owed q := by
      rw [h.owed q, List.filter_congr fun t ht => by rw [hother t (hne t ht)]]
      exact List.map_congr_left fun t ht => congrArg Sync.number (hsync' t (hne t (List.mem_of_mem_filter ht)))
    have hcurrent : s₁.current p = s.syncs.length := congrArg Sync.number hsync
    have howed : s₁.owed q = if participates forward p q = true then s.owed q ++ [s.syncs.length] else s.owed q := by rw [heq]; rfl
    rw [hlist, List.filter_append, List.map_append, hold, howed, List.filter_cons, List.filter_nil, hself]
    cases participates forward p q with
    | true =>
      rw [← hcurrent]
      rfl
    | false => exact (List.append_nil _).symm
  · rw [hlist] at ht
    rcases List.mem_append.1 ht with ht | ht
    · rw [hsync' t (hne t ht), hsyncs]
      exact List.mem_append_left _ (h.current t ht)
    · rw [List.mem_singleton.1 ht, hsync, hsyncs]
      exact List.mem_append_right _ List.mem_cons_self
  · rw [hsyncs] at hc ⊢
    rw [List.length_append, List.length_singleton]
    rcases List.mem_append.1 hc with hc | hc
    · exact Nat.lt_succ_of_lt (h.numbers c hc)
    · rw [List.mem_singleton.1 hc]
      exact Nat.lt_succ_self _
  · rw [hsyncs, List.map_append, List.map_singleton]
    refine h.distinct.append (List.nodup_singleton _) (List.disjoint_singleton.2 fun hin => ?_)
    obtain ⟨c, hc, hn⟩ := List.mem_map.1 hin
    exact hnew c hc hn
  · rw [hsent] at hc
    rw [hsyncs]
    exact List.mem_append_left _ (h.sent c hc)
  · rw [hlist] at ht
    rw [hsent, hexec]
    rcases List.mem_append.1 ht with ht | ht
    · rw [hsync' t (hne t ht)]
      exact h.pending t ht
    · rw [List.mem_singleton.1 ht, hsync]
      exact ⟨fun hin => absurd rfl (hnew _ (h.sent _ hin)), fun hin => absurd hin hpexec⟩
  · rw [hsyncs] at hc
    rw [hsent, hlist]
    rcases List.mem_append.1 hc with hc | hc
    · refine (h.kept c hc).imp_right fun ⟨t, ht, heq⟩ => ⟨t, List.mem_append_left _ ht, ?_⟩
      rw [heq, hsync' t (hne t ht)]
    · exact .inr ⟨p, List.mem_append_right _ List.mem_cons_self, (List.mem_singleton.1 hc).trans hsync.symm⟩

/-! ### A Complete -/

/-- The tracker that a Complete of a port is for: the first on the list that waits for it. -/
theorem Inv.receivedFrom {p : Fin n} {k : ℕ} {ks : List ℕ} (h : Inv s) (howed : s.owed p = k :: ks) :
    ∃ l t r, s.list = l ++ t :: r ∧ s.receivedFrom p = some t ∧ (∀ u ∈ l, s.portDone u p = true) ∧ s.portDone t p = false ∧
      ks = (r.filter fun t => !s.portDone t p).map s.current := by
  cases hfind : s.receivedFrom p with
  | none =>
    have hnone : s.list.filter (fun t => !s.portDone t p) = [] := List.filter_eq_nil_iff.2 (List.find?_eq_none.1 hfind)
    rw [h.owed, hnone] at howed
    cases howed
  | some t =>
    obtain ⟨hopen, l, r, hlist, hbefore⟩ := List.find?_eq_some_iff_append.1 hfind
    have hl : ∀ u ∈ l, s.portDone u p = true := fun u hu => by
      have hu := hbefore u hu
      rwa [Bool.not_not] at hu
    rw [Bool.not_eq_true'] at hopen
    refine ⟨l, t, r, hlist, rfl, hl, hopen, ?_⟩
    have hnone : l.filter (fun t => !s.portDone t p) = [] := List.filter_eq_nil_iff.2 fun u hu => by
      rw [hl u hu]
      exact Bool.noConfusion
    rw [h.owed, hlist, List.filter_append, hnone, List.nil_append, List.filter_cons, hopen] at howed
    exact (List.cons.inj howed).2.symm

/-- A port is marked in a tracker, and owes one Sync less. -/
def marked (s : State n) (t p : Fin n) (ks : List ℕ) : State n := markDone { s with owed := Function.update s.owed p ks } t p

theorem portDone_marked_self (t p : Fin n) (ks : List ℕ) : (s.marked t p ks).portDone t p = true := by
  simp only [marked, markDone, Function.update_self]

theorem portDone_marked_of_ne {t p u q : Fin n} (ks : List ℕ) (hne : u ≠ t ∨ q ≠ p) : (s.marked t p ks).portDone u q = s.portDone u q := by
  by_cases hut : u = t
  · subst hut
    simp only [marked, markDone, Function.update_self, Function.update_of_ne (hne.resolve_left (not_not_intro rfl))]
  · simp only [marked, markDone, Function.update_of_ne hut]

theorem done_marked_of_ne {t p u : Fin n} (ks : List ℕ) (hut : u ≠ t) : (s.marked t p ks).Done u ↔ s.Done u := by
  simp only [Done, portDone_marked_of_ne ks (.inl hut)]

theorem done_marked_self {t p : Fin n} (ks : List ℕ) : (s.marked t p ks).Done t ↔ ∀ q, q ≠ p → s.portDone t q = true := by
  constructor
  · intro hdone q hq
    have hd := hdone q
    rwa [portDone_marked_of_ne ks (.inr hq)] at hd
  · intro hall q
    by_cases hq : q = p
    · rw [hq, portDone_marked_self]
    · rw [portDone_marked_of_ne ks (.inr hq)]
      exact hall q hq

/-- What is owed is what the trackers wait for, after the mark as before. -/
theorem Inv.owed_marked {t p : Fin n} {l r : List (Fin n)} (h : Inv s) (hlist : s.list = l ++ t :: r) (hl : ∀ u ∈ l, s.portDone u p = true) (q : Fin n) :
    (s.marked t p ((r.filter fun t => !s.portDone t p).map s.current)).owed q =
      (s.list.filter fun u => !(s.marked t p ((r.filter fun t => !s.portDone t p).map s.current)).portDone u q).map s.current := by
  by_cases hq : q = p
  · subst hq
    have hnodup := h.list
    rw [hlist, List.nodup_middle, List.nodup_cons, List.mem_append, not_or] at hnodup
    have hnone : l.filter (fun u => !(s.marked t q ((r.filter fun t => !s.portDone t q).map s.current)).portDone u q) = [] := by
      refine List.filter_eq_nil_iff.2 fun u hu => ?_
      have hut : u ≠ t := fun hut => hnodup.1.1 (hut ▸ hu)
      rw [portDone_marked_of_ne _ (.inl hut), hl u hu]
      exact Bool.noConfusion
    have hrest : r.filter (fun u => !(s.marked t q ((r.filter fun t => !s.portDone t q).map s.current)).portDone u q) =
        r.filter fun u => !s.portDone u q := by
      refine List.filter_congr fun u hu => ?_
      have hut : u ≠ t := fun hut => hnodup.1.2 (hut ▸ hu)
      rw [portDone_marked_of_ne _ (.inl hut)]
    rw [hlist, List.filter_append, hnone, List.nil_append, List.filter_cons, portDone_marked_self, hrest]
    exact Function.update_self _ _ _
  · have hsame : s.list.filter (fun u => !(s.marked t p ((r.filter fun t => !s.portDone t p).map s.current)).portDone u q) =
        s.list.filter fun u => !s.portDone u q := List.filter_congr fun u _ => by rw [portDone_marked_of_ne _ (.inr hq)]
    rw [hsame, ← h.owed q]
    exact Function.update_of_ne hq _ _

theorem Inv.complete {p : Fin n} (h : Inv s) (hfair : Fair forward s (.complete p)) (hs : s.complete p = some s') : Inv s' := by
  unfold State.complete at hs
  split at hs
  · cases hs
  · rename_i k ks howed
    obtain rfl := Option.some.inj hs
    obtain ⟨l, t, r, hlist, hreceived, hl, hopen, rfl⟩ := h.receivedFrom howed
    obtain ⟨hlast, hmore⟩ := hfair l t r hlist hl hopen
    have ht : t ∈ s.list := by
      rw [hlist]
      exact List.mem_append_right _ List.mem_cons_self
    have htexec : t ∉ s.exec := fun hin => by
      rw [((h.done t).1 hin).2 p] at hopen
      cases hopen
    have htl : ∀ u ∈ l, u ≠ t := by
      have hnodup := h.list
      rw [hlist, List.nodup_middle, List.nodup_cons, List.mem_append, not_or] at hnodup
      exact fun u hu hut => hnodup.1.1 (hut ▸ hu)
    have howed' := h.owed_marked hlist hl
    set ks := (r.filter fun t => !s.portDone t p).map s.current
    have hrest : ∀ u, u ∉ s.list → (s.marked t p ks).Done u := fun u hu => (done_marked_of_ne ks fun hut => hu (by rw [hut]; exact ht)).2 (h.rest u hu)
    have hhandle : handleDvmComplete { s with owed := Function.update s.owed p ks } p =
        (s.marked t p ks).getDone.elim (s.marked t p ks) (s.marked t p ks).spawn := by
      have hfound : State.receivedFrom { s with owed := Function.update s.owed p ks } p = some t := hreceived
      unfold handleDvmComplete
      rw [hfound]
      have hmark : State.markDone { s with owed := Function.update s.owed p ks } t p = s.marked t p ks := rfl
      simp only [hmark]
      cases (s.marked t p ks).getDone <;> rfl
    rw [hhandle]
    by_cases hall : ∀ q, q ≠ p → s.portDone t q = true
    · have hdone : (s.marked t p ks).getDone = some t := by
        refine List.find?_eq_some_iff_append.2 ⟨decide_eq_true ((done_marked_self ks).2 hall), l, r, hlist, fun u hu => ?_⟩
        rw [Bool.not_eq_true', decide_eq_false_iff_not, done_marked_of_ne ks (htl u hu)]
        intro hu'
        have hul : u ∈ s.list := by
          rw [hlist]
          exact List.mem_append_left _ hu
        exact hlast hall u hu ((h.done u).2 ⟨hul, hu'⟩)
      rw [hdone, Option.elim_some]
      have hfresh : s.sync t ∉ s.sent := fun hin => htexec ((h.pending t ht).1 hin)
      refine ⟨h.aborted, h.running, h.list, h.exec.append (List.nodup_singleton t) (List.disjoint_singleton.2 htexec), fun u => ?_, hrest, howed', h.current,
        h.numbers, h.distinct, fun c hc => ?_, h.once.append (List.nodup_singleton _) (List.disjoint_singleton.2 hfresh), fun u hu => ?_, fun c hc => ?_⟩
      · change u ∈ s.exec ++ [t] ↔ u ∈ s.list ∧ (s.marked t p ks).Done u
        rw [List.mem_append, List.mem_singleton]
        by_cases hut : u = t
        · subst hut
          exact ⟨fun _ => ⟨ht, (done_marked_self ks).2 hall⟩, fun _ => .inr rfl⟩
        · rw [or_iff_left hut, done_marked_of_ne ks hut]
          exact h.done u
      · rcases List.mem_append.1 hc with hc | hc
        · exact h.sent c hc
        · rw [List.mem_singleton.1 hc]
          exact h.current t ht
      · change s.sync u ∈ s.sent ++ [s.sync t] ↔ u ∈ s.exec ++ [t]
        rw [List.mem_append, List.mem_append, List.mem_singleton, List.mem_singleton, h.pending u hu]
        exact or_congr_right ⟨fun heq => congrArg Sync.port heq, fun heq => by rw [heq]⟩
      · exact (h.kept c hc).imp_left fun hsent => List.mem_append_left _ hsent
    · obtain ⟨q, hq, hqopen⟩ : ∃ q, q ≠ p ∧ s.portDone t q = false := by
        by_contra hno
        exact hall fun q hq => by
          rw [← Bool.not_eq_false]
          exact fun hqopen => hno ⟨q, hq, hqopen⟩
      have hexec := hmore ⟨q, hq, hqopen⟩
      have hnotdone : ∀ u ∈ s.list, ¬(s.marked t p ks).Done u := by
        intro u hu hdone
        by_cases hut : u = t
        · subst hut
          exact hall ((done_marked_self ks).1 hdone)
        · have hin := (h.done u).2 ⟨hu, (done_marked_of_ne ks hut).1 hdone⟩
          rw [hexec] at hin
          cases hin
      have hnone : (s.marked t p ks).getDone = none := List.find?_eq_none.2 fun u hu => by
        rw [decide_eq_true_eq]
        exact hnotdone u hu
      rw [hnone, Option.elim_none]
      refine ⟨h.aborted, h.running, h.list, h.exec, fun u => ⟨fun hin => ?_, fun hin => absurd hin.2 (hnotdone u hin.1)⟩, hrest, howed', h.current, h.numbers,
        h.distinct, h.sent, h.once, h.pending, h.kept⟩
      have hin : u ∈ s.exec := hin
      rw [hexec] at hin
      cases hin

/-! ### A Complete has been sent -/

theorem Inv.snoopDone {k : ℕ} (h : Inv s) (hs : s.snoopDone k = some s') : Inv s' := by
  obtain ⟨t, hget, rfl⟩ := Option.map_eq_some_iff.1 hs
  obtain ⟨hk, ht⟩ := List.getElem?_eq_some_iff.1 hget
  have hperm := List.getElem_cons_eraseIdx_perm hk
  rw [ht] at hperm
  obtain ⟨htlist, htdone⟩ := (h.done t).1 (hperm.mem_iff.1 List.mem_cons_self)
  obtain ⟨htnot, herase⟩ := List.nodup_cons.1 (hperm.nodup_iff.2 h.exec)
  have hexec : ∀ u, u ∈ s.exec.eraseIdx k ↔ u ∈ s.exec ∧ u ≠ t := by
    intro u
    rw [← hperm.mem_iff, List.mem_cons]
    constructor
    · exact fun hin => ⟨.inr hin, fun hut => htnot (hut ▸ hin)⟩
    · exact fun hin => hin.1.resolve_left hin.2
  have hlist : ∀ u, u ∈ s.list.filter (· ≠ t) ↔ u ∈ s.list ∧ u ≠ t := fun u => by rw [List.mem_filter, decide_eq_true_eq]
  refine ⟨h.aborted, running_setRunning (s := { s with list := s.list.filter (· ≠ t), exec := s.exec.eraseIdx k }) h.running t, h.list.filter _, herase,
    fun u => ?_, fun u hu => ?_, fun q => ?_, fun u hu => h.current u ((hlist u).1 hu).1, h.numbers, h.distinct, h.sent, h.once, fun u hu => ?_, fun c hc => ?_⟩
  · change u ∈ s.exec.eraseIdx k ↔ u ∈ s.list.filter (· ≠ t) ∧ s.Done u
    rw [hexec, hlist, h.done u]
    exact and_right_comm
  · by_cases hut : u = t
    · rw [hut]
      exact htdone
    · exact h.rest u fun hin => hu ((hlist u).2 ⟨hin, hut⟩)
  · change s.owed q = ((s.list.filter (· ≠ t)).filter fun u => !s.portDone u q).map s.current
    rw [h.owed q, List.filter_filter]
    refine congrArg _ (List.filter_congr fun u _ => ?_)
    by_cases hut : u = t
    · rw [hut, htdone q]
      rfl
    · rw [decide_eq_true hut, Bool.and_true]
  · obtain ⟨hu, hut⟩ := (hlist u).1 hu
    refine (h.pending u hu).trans ⟨fun hin => (hexec u).2 ⟨hin, hut⟩, fun hin => ((hexec u).1 hin).1⟩
  · rcases h.kept c hc with hsent | ⟨u, hu, rfl⟩
    · exact .inl hsent
    · by_cases hut : u = t
      · exact .inl ((h.pending u hu).2 ((h.done u).2 ⟨hu, hut ▸ htdone⟩))
      · exact .inr ⟨u, (hlist u).2 ⟨hu, hut⟩, rfl⟩

theorem Inv.step {a : Act n} (h : Inv s) (hfair : Fair forward s a) (hs : Dvm.step forward s a = some s') : Inv s' := by
  unfold Dvm.step at hs
  rw [if_neg (by rw [h.aborted]; exact Bool.noConfusion)] at hs
  cases a with
  | sync p =>
    obtain rfl := Option.some.inj hs
    exact h.startCollectingFor hfair
  | complete p => exact h.complete hfair hs
  | snoopDone k => exact h.snoopDone hs

end State

/-- In a run whose steps are fair each Sync gets one Complete, when the other ports have completed it. -/
theorem completed_of_run (forward : Fin n → Bool) {s : State n} (h : Reach (step forward) (Fair forward) {} s) : Completed s :=
  State.Inv.completed (h.invariant State.Inv.init fun hinv hfair hs => hinv.step hfair hs)

/-- A Sync of the first of three ports. -/
theorem completed_threePorts : ∃ s : State 3, s.sent = [⟨0, 0⟩] ∧ Completed s :=
  ⟨_, rfl, completed_of_run (fun _ => true)
    ((((Reach.refl.tail (a := .sync 0) ⟨List.not_mem_nil, 1, rfl⟩ rfl).tail
      (a := .complete 1) (fun _ _ _ _ _ _ => ⟨fun _ _ _ => List.not_mem_nil, fun _ => by rfl⟩) rfl).tail
      (a := .complete 2) (fun _ _ _ _ _ _ => ⟨fun _ _ _ => List.not_mem_nil, fun _ => by rfl⟩) rfl).tail (a := .snoopDone 0) trivial rfl)⟩

/-- While the Complete of a Sync is being sent, another comes for a second Sync: the first is sent again. -/
theorem not_completed_twoSyncs : ¬∀ (n : ℕ) (forward : Fin n → Bool) (s : State n), Reach (step forward) anyStep {} s → Completed s := by
  intro h
  have hrun : run (step fun _ => true) ({} : State 3) [.sync 0, .sync 1, .complete 1, .complete 2, .complete 2] = some _ := rfl
  exact absurd (h 3 _ _ (reach_of_run hrun)).once (by decide)

end LibSystemCTLM.Ace.Dvm
