import LibSystemCTLM.Foundation.Instances
import Mathlib.Logic.Relation
import Mathlib.Data.List.Basic

/-!
# Runs of a partial step function

A system that reacts to actions is given by `step : σ → α → Option σ`: `none` says that the
action is not enabled in that state. A run takes enabled steps one after the other; `Reach ok`
is the set of states a run reaches when every step of it also meets a condition `ok` on the
state before the step and the action. With `ok` always true these are the reachable states.

The one induction over runs is `Reach.invariant`: what holds at the start and is kept by every
step holds at every state reached.
-/

namespace LibSystemCTLM.Foundation

variable {σ : Type*} {α : Type*} {step : σ → α → Option σ} {ok ok' : σ → α → Prop} {s₀ s s' : σ}

/-- The states that runs from `s₀` reach, every step of which meets `ok`. -/
inductive Reach (step : σ → α → Option σ) (ok : σ → α → Prop) (s₀ : σ) : σ → Prop where
  /-- The run without a step. -/
  | refl : Reach step ok s₀ s₀
  /-- One more enabled step, taken at a state and by an action that meet the condition. -/
  | tail {s s' : σ} {a : α} : Reach step ok s₀ s → ok s a → step s a = some s' → Reach step ok s₀ s'

/-- A step that need meet no condition. -/
abbrev anyStep (_ : σ) (_ : α) : Prop := True

/-- **Induction over runs.** A property that holds at the start and is kept by every step that
meets the condition holds at every state reached. -/
theorem Reach.invariant {I : σ → Prop} (h₀ : I s₀)
    (hstep : ∀ {s s' : σ} {a : α}, I s → ok s a → step s a = some s' → I s')
    (h : Reach step ok s₀ s) : I s := by
  induction h with
  | refl => exact h₀
  | tail _ hok hs ih => exact hstep ih hok hs

/-- The run of a list of actions; `none` as soon as one of them is not enabled. -/
def run (step : σ → α → Option σ) : σ → List α → Option σ
  | s, [] => some s
  | s, a :: as => (step s a).bind fun s' => run step s' as

/-- A list of actions whose steps all meet the condition, each in the state it is taken in. -/
def RunOk (step : σ → α → Option σ) (ok : σ → α → Prop) : σ → List α → Prop
  | _, [] => True
  | s, a :: as => ok s a ∧ ∀ s', step s a = some s' → RunOk step ok s' as

/-- A decidable condition is checked by running the actions. -/
instance RunOk.decidable [∀ s a, Decidable (ok s a)] : ∀ (s : σ) (as : List α), Decidable (RunOk step ok s as)
  | _, [] => isTrue trivial
  | s, a :: as =>
    have : ∀ s', Decidable (RunOk step ok s' as) := fun s' => RunOk.decidable s' as
    decidable_of_iff (ok s a ∧ ((step s a).all fun s' => decide (RunOk step ok s' as)) = true) (by
      simp only [RunOk, Option.all_eq_true, decide_eq_true_eq])

theorem Reach.of_run {as : List α} (hr : Reach step ok s₀ s) (hok : RunOk step ok s as)
    (h : run step s as = some s') : Reach step ok s₀ s' := by
  induction as generalizing s with
  | nil =>
    simp only [run, Option.some.injEq] at h
    exact h ▸ hr
  | cons a as ih =>
    obtain ⟨u, hu, hrest⟩ := Option.bind_eq_some_iff.1 h
    exact ih (hr.tail hok.1 hu) (hok.2 u hu) hrest

/-- A condition on the actions alone is checked on the list. -/
theorem runOk_of_forall {as : List α} (h : ∀ a ∈ as, ∀ s, ok s a) (s : σ) : RunOk step ok s as := by
  induction as generalizing s with
  | nil => trivial
  | cons a as ih =>
    exact ⟨h a List.mem_cons_self s, fun s' _ => ih (fun b hb => h b (List.mem_cons_of_mem a hb)) s'⟩

/-- The state at the end of a run of actions is reachable. -/
theorem reach_of_run {as : List α} (h : run step s₀ as = some s) : Reach step anyStep s₀ s :=
  Reach.refl.of_run (runOk_of_forall (fun _ _ _ => trivial) s₀) h

/-- Conditions that agree wherever an invariant holds are met by the same runs. -/
theorem runOk_congr {I : σ → Prop} (hkeep : ∀ {s s' : σ} {a : α}, I s → step s a = some s' → I s')
    (hiff : ∀ {s : σ} {a : α}, I s → (ok s a ↔ ok' s a)) {as : List α} (h : I s) : RunOk step ok s as ↔ RunOk step ok' s as := by
  induction as generalizing s with
  | nil => exact Iff.rfl
  | cons a as ih => exact and_congr (hiff h) (forall_congr' fun s' => imp_congr_right fun hs => ih (hkeep h hs))

/-- The same, of an invariant that is kept as long as a step meets the first of them. -/
theorem runOk_congr_of_ok {I : σ → Prop} (hkeep : ∀ {s s' : σ} {a : α}, I s → ok s a → step s a = some s' → I s')
    (hiff : ∀ {s : σ} {a : α}, I s → (ok s a ↔ ok' s a)) {as : List α} (h : I s) : RunOk step ok s as ↔ RunOk step ok' s as := by
  induction as generalizing s with
  | nil => exact Iff.rfl
  | cons a as ih =>
    constructor
    · rintro ⟨hok, hrest⟩
      exact ⟨(hiff h).1 hok, fun s' hs => (ih (hkeep h hok hs)).1 (hrest s' hs)⟩
    · rintro ⟨hok, hrest⟩
      have hok' := (hiff h).2 hok
      exact ⟨hok', fun s' hs => (ih (hkeep h hok' hs)).2 (hrest s' hs)⟩

/-- **Progress**: as long as there is always an allowed step that keeps an invariant and makes a measure less, some run gets
there. -/
theorem exists_run_of_measure {I done : σ → Prop} {allowed : α → Prop} (m : σ → ℕ)
    (h : ∀ s, I s → ¬ done s → ∃ a s', allowed a ∧ step s a = some s' ∧ I s' ∧ m s' < m s) (hs : I s) :
    ∃ as, (∀ a ∈ as, allowed a) ∧ ∃ s', run step s as = some s' ∧ I s' ∧ done s' := by
  induction hm : m s using Nat.strongRecOn generalizing s with
  | ind n ih =>
    by_cases hdone : done s
    · exact ⟨[], by simp, s, rfl, hs, hdone⟩
    obtain ⟨a, s', ha, hstep, hs', hlt⟩ := h s hs hdone
    obtain ⟨as, has, s'', hrun, hend⟩ := ih _ (hm ▸ hlt) hs' rfl
    refine ⟨a :: as, ?_, s'', ?_, hend⟩
    · intro b hb
      obtain rfl | hb := List.mem_cons.1 hb
      · exact ha
      · exact has b hb
    · rw [run, hstep]
      exact hrun

/-! ### Steps that are always enabled -/

section Total

variable {f : σ → α → σ} {good inv : σ → Prop} {as : List α}

/-- What a step does not repair held before the steps, if it holds after them. -/
theorem good_of_foldl (hback : ∀ s a, good (f s a) → good s) (h : good (as.foldl f s)) : good s := by
  induction as generalizing s with
  | nil => exact h
  | cons a as ih => exact hback s a (ih h)

/-- An invariant of the steps that do no harm. -/
theorem inv_foldl (hback : ∀ s a, good (f s a) → good s) (hkeep : ∀ s a, inv s → good (f s a) → inv (f s a)) (hi : inv s)
    (h : good (as.foldl f s)) : inv (as.foldl f s) := by
  induction as generalizing s with
  | nil => exact hi
  | cons a as ih => exact ih (hkeep s a hi (good_of_foldl hback h)) h

/-- **No harm is done exactly if every step meets its condition.** -/
theorem foldl_iff_runOk (hback : ∀ s a, good (f s a) → good s) (hstep : ∀ s a, inv s → good s → (good (f s a) ↔ ok s a))
    (hkeep : ∀ s a, inv s → good (f s a) → inv (f s a)) (hi : inv s) (hs : good s) :
    good (as.foldl f s) ↔ RunOk (fun s a => some (f s a)) ok s as := by
  induction as generalizing s with
  | nil => exact ⟨fun _ => trivial, fun _ => hs⟩
  | cons a as ih =>
    constructor
    · intro h
      have hgood : good (f s a) := good_of_foldl hback h
      refine ⟨(hstep s a hi hs).1 hgood, ?_⟩
      rintro s' ⟨⟩
      exact (ih (hkeep s a hi hgood) hgood).1 h
    · rintro ⟨hok, hrest⟩
      have hgood : good (f s a) := (hstep s a hi hs).2 hok
      exact (ih (hkeep s a hi hgood) hgood).2 (hrest _ rfl)

end Total

end LibSystemCTLM.Foundation
