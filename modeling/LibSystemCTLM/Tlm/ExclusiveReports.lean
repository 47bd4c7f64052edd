import LibSystemCTLM.Tlm.ExclusiveMonitor

/-!
# What the exclusive monitor reports

`exclusive_handled` of a payload that is handed back tells the initiator whether its exclusive
access was one. An exclusive access succeeds when it was passed on and the target answered it with
`TLM_OK_RESPONSE`: a read that is then monitored, or a write whose location was.

`set_exclusive_handled` of the monitor calls the setter of the attribute without a value, and the
setter's default is `false`, so the monitor never reports a success. It does not
touch the attribute of other accesses, which keep what the initiator left there. `reports_iff` has
the runs whose reports are right: those in which no exclusive access succeeds and no payload comes
back from the target with the attribute set.

The target answers with data and a response and leaves the extension alone.
-/

namespace LibSystemCTLM.Tlm.Exmon

open Foundation

/-- `get_exclusive_handled`. -/
def Trans.exclusiveHandled (trans : Trans) : Bool := trans.genattr.any Genattr.exclusiveHandled

@[simp] theorem exclusiveHandled_setExclusiveHandled (trans : Trans) : trans.setExclusiveHandled.exclusiveHandled = false := by
  cases h : trans.genattr <;> simp [Trans.exclusiveHandled, Trans.setExclusiveHandled, h]

namespace State

variable {μ : Type*} (idMask : BitVec 32) (target : Target μ)

/-- The step hands back an exclusive access that succeeded: nothing does before it was passed on. -/
def Succeeded (t : Trans) : Action → Prop
  | .call _ => False
  | .ret _ => t.isExclusive = true ∧ (t.isRead = true ∨ t.isWrite = true) ∧ t.response = .ok

/-- What the step hands back is marked as handled exactly when it succeeded. -/
def Reports (s : State μ) (a : Action) : Prop :=
  ∀ s' t, step idMask target s a = some s' → s'.returned = t :: s.returned → (t.exclusiveHandled = true ↔ Succeeded t a)

/-- The target does not answer an exclusive read or write with `TLM_OK_RESPONSE`, and no payload it
answers is marked already. -/
def Quiet (s : State μ) : Action → Prop
  | .call _ => True
  | .ret k => ∀ w, s.inFlight[k]? = some w → w.exclusiveHandled = false ∧
      ¬(w.isExclusive = true ∧ (w.isRead = true ∨ w.isWrite = true) ∧ (target s.mem w).2.2 = .ok)

variable {idMask target} {s s' : State μ} {a : Action} {w : Trans}

/-! ### What is on its way -/

/-- No exclusive write on its way is marked. -/
def Unmarked (s : State μ) : Prop := ∀ w ∈ s.inFlight, w.isExclusive = true → w.isWrite = true → w.exclusiveHandled = false

theorem unmarked_forward (h : s.Unmarked) (hw : w.isExclusive = true → w.isWrite = true → w.exclusiveHandled = false) :
    (s.forward w).Unmarked := by
  intro x hx
  rcases List.mem_append.1 hx with hx | hx
  · exact h x hx
  · exact List.mem_singleton.1 hx ▸ hw

theorem Unmarked.call (h : s.Unmarked) (w : Trans) : (s.call idMask w).Unmarked := by
  unfold State.call
  split
  · split
    · dsimp only
      split
      · exact unmarked_forward h fun _ _ => exclusiveHandled_setExclusiveHandled w
      · exact h
    · rename_i hx
      exact unmarked_forward h fun hx' => absurd hx' hx
  · rename_i hw
    exact unmarked_forward h fun _ hw' => absurd hw' hw

theorem inFlight_finish (s : State μ) (w : Trans) : (s.finish idMask w).inFlight = s.inFlight := by
  unfold State.finish
  split <;> rfl

theorem step_ret {k : ℕ} : step idMask target s (.ret k) = s.inFlight[k]?.map fun w =>
    ({ s with inFlight := s.inFlight.eraseIdx k, mem := (target s.mem w).1 }.finish idMask
      { w with data := (target s.mem w).2.1, response := (target s.mem w).2.2 }) := by
  rw [State.step]
  cases s.inFlight[k]? <;> rfl

theorem Unmarked.step (h : s.Unmarked) (hs : step idMask target s a = some s') : s'.Unmarked := by
  cases a with
  | call w =>
    obtain rfl := Option.some.inj hs
    exact h.call w
  | ret k =>
    rw [step_ret] at hs
    obtain ⟨w, -, rfl⟩ := Option.map_eq_some_iff.1 hs
    intro x hx
    rw [inFlight_finish] at hx
    exact h x (List.mem_of_mem_eraseIdx hx)

/-! ### One step -/

/-- What a call hands back without passing it on is a failed exclusive write, which is not marked. -/
theorem returned_call {t : Trans} (h : (s.call idMask w).returned = t :: s.returned) : t.exclusiveHandled = false := by
  unfold State.call at h
  split at h
  · split at h
    · dsimp only at h
      split at h
      · exact absurd h.symm (List.cons_ne_self _ _)
      · obtain ⟨rfl, -⟩ := List.cons.inj h
        exact exclusiveHandled_setExclusiveHandled w
    · exact absurd h.symm (List.cons_ne_self _ _)
  · exact absurd h.symm (List.cons_ne_self _ _)

variable (idMask) in
/-- What is handed back after the target has answered: a monitored read is unmarked, others keep their mark. -/
theorem returned_finish (s : State μ) (w : Trans) : ∃ t, (s.finish idMask w).returned = t :: s.returned ∧
    t.isExclusive = w.isExclusive ∧ t.toGenericPayload = w.toGenericPayload ∧
      t.exclusiveHandled = (w.exclusiveHandled && !(w.isRead && w.isExclusive && decide (w.response = .ok))) := by
  unfold State.finish
  split
  · rename_i hset
    refine ⟨_, rfl, isExclusive_setExclusiveHandled w, rfl, ?_⟩
    rw [hset, exclusiveHandled_setExclusiveHandled, Bool.not_true, Bool.and_false]
  · rename_i hset
    refine ⟨_, rfl, rfl, rfl, ?_⟩
    rw [Bool.eq_false_iff.2 hset, Bool.not_false, Bool.and_true]

theorem reports_call (w : Trans) : s.Reports idMask target (.call w) := by
  intro s' t hs hret
  obtain rfl := Option.some.inj hs
  rw [returned_call hret]
  exact iff_of_false Bool.false_ne_true id

/-- An answer is reported rightly exactly if it is no success and the payload was not marked. -/
theorem reports_ret_iff (h : s.Unmarked) (k : ℕ) : s.Reports idMask target (.ret k) ↔ s.Quiet target (.ret k) := by
  have hanswer : ∀ w, s.inFlight[k]? = some w → ∃ s' t, step idMask target s (.ret k) = some s' ∧ s'.returned = t :: s.returned ∧
      t.exclusiveHandled = (w.exclusiveHandled && !(w.isRead && w.isExclusive && decide ((target s.mem w).2.2 = .ok))) ∧
        (Succeeded t (.ret k) ↔ w.isExclusive = true ∧ (w.isRead = true ∨ w.isWrite = true) ∧ (target s.mem w).2.2 = .ok) := by
    intro w hk
    obtain ⟨t, hret, hx, hgp, hmark⟩ := returned_finish idMask
      { s with inFlight := s.inFlight.eraseIdx k, mem := (target s.mem w).1 }
      { w with data := (target s.mem w).2.1, response := (target s.mem w).2.2 }
    refine ⟨_, t, by rw [step_ret, hk, Option.map_some], hret, hmark, ?_⟩
    rw [Succeeded, hx, hgp]
    rfl
  refine ⟨fun hrep w hk => ?_, fun hquiet s' t hs hret => ?_⟩
  · obtain ⟨s', t, hs, hret, hmark, hsucc⟩ := hanswer w hk
    have hiff := hrep s' t hs hret
    rw [hmark, hsucc] at hiff
    have hnot : ¬(w.isExclusive = true ∧ (w.isRead = true ∨ w.isWrite = true) ∧ (target s.mem w).2.2 = .ok) := by
      intro hall
      obtain ⟨hm, hclear⟩ := Bool.and_eq_true_iff.1 (hiff.2 hall)
      obtain ⟨hx, hrw, hok⟩ := hall
      rcases hrw with hr | hw
      · -- a success of a read is never marked
        simp [hr, hx, hok] at hclear
      · rw [h w (List.mem_of_getElem? hk) hx hw] at hm
        cases hm
    refine ⟨Bool.eq_false_iff.2 fun hm => hnot (hiff.1 ?_), hnot⟩
    rw [hm, Bool.true_and, Bool.not_eq_true', Bool.eq_false_iff]
    intro hread
    simp only [Bool.and_eq_true, decide_eq_true_eq] at hread
    exact hnot ⟨hread.1.2, .inl hread.1.1, hread.2⟩
  · cases hk : s.inFlight[k]? with
    | none =>
      rw [step_ret, hk] at hs
      cases hs
    | some w =>
      obtain ⟨s₁, t₁, hs₁, hret₁, hmark, hsucc⟩ := hanswer w hk
      obtain rfl := Option.some.inj (hs₁.symm.trans hs)
      obtain ⟨rfl, -⟩ := List.cons.inj (hret₁.symm.trans hret)
      obtain ⟨hm, hnot⟩ := hquiet w hk
      rw [hmark, hsucc, hm, Bool.false_and]
      exact iff_of_false Bool.false_ne_true hnot

theorem reports_step_iff (h : s.Unmarked) : s.Reports idMask target a ↔ s.Quiet target a := by
  cases a with
  | call w => exact iff_of_true (reports_call w) trivial
  | ret k => exact reports_ret_iff h k

/-! ### Runs -/

/-- **The exclusive results of a run are reported exactly if** no exclusive access succeeds in it and
no payload comes back from the target marked. -/
theorem reports_iff (idMask : BitVec 32) (target : Target μ) (mem : μ) (as : List Action) :
    RunOk (State.step idMask target) (Reports idMask target) (init mem) as ↔
      RunOk (State.step idMask target) (Quiet target) (init mem) as :=
  runOk_congr (I := Unmarked) (fun h hs => h.step hs) (fun h => reports_step_iff h) (fun _ => nofun)

/-- A single exclusive read, answered at once, is monitored and not reported. -/
theorem not_reports : ¬ ∀ as, RunOk (State.step 0xf okTarget) (Reports 0xf okTarget) (init ()) as := by
  intro h
  have hrun := (reports_iff 0xf okTarget () _).1 (h [.call (exclusiveAccess .read), .ret 0])
  exact (hrun.2 _ rfl).1 _ rfl |>.2 ⟨rfl, .inl rfl, rfl⟩

end State

end LibSystemCTLM.Tlm.Exmon
