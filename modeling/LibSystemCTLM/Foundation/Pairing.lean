import LibSystemCTLM.Foundation.Instances
import Mathlib.Data.List.Basic
import Mathlib.Data.List.Nodup
import Mathlib.Order.Basic
import Mathlib.Order.Nat

/-!
# Data paired with what announces it

What announces data (a `T`, an address for instance) and the data (a `D`) arrive on two channels, either of
them first. Both carry a key. The data of a key comes in bursts, each up to a datum that is `last`, and the
bursts of a key belong to what announces them with that key, in order (`burst`).

A component keeps what has not got all of its data (`pending`) and the data that is not taken (`queue`), and
charges a datum to the first of its key. `Paired` is kept by each arrival and each charge, whatever the order,
and when no key has both something pending and data in the queue, each announcement was charged with its own
burst (`Paired.settled`).
-/

namespace LibSystemCTLM.Foundation.Pairing

variable {α T D K : Type*}

/-! ### Bursts -/

section Burst

variable (last : D → Bool)

/-- The `j`th burst of a list of data. -/
def burst : ℕ → List D → List D
  | _, [] => []
  | 0, d :: ds => d :: if last d = true then [] else burst 0 ds
  | j + 1, d :: ds => burst (if last d = true then j else j + 1) ds

variable {last}

/-- A datum belongs to the burst after those that are over. -/
theorem burst_concat (ds : List D) (d : D) (j : ℕ) : burst last j (ds ++ [d]) = burst last j ds ++ if ds.countP last = j then [d] else [] := by
  induction ds generalizing j with
  | nil => cases j <;> simp [burst]
  | cons e ds ih =>
    cases j with
    | zero => by_cases he : last e = true <;> simp [burst, he, ih]
    | succ j => by_cases he : last e = true <;> simp [burst, he, ih]

/-- A burst that is over stays. -/
theorem burst_append {ds : List D} {j : ℕ} (h : j < ds.countP last) (ds' : List D) : burst last j (ds ++ ds') = burst last j ds := by
  induction ds generalizing j with
  | nil => cases h
  | cons e ds ih =>
    rw [List.countP_cons] at h
    by_cases he : last e = true
    · rw [if_pos he] at h
      cases j with
      | zero => simp [burst, he]
      | succ j => simp [burst, he, ih (Nat.lt_of_succ_lt_succ h)]
    · rw [if_neg he] at h
      cases j with
      | zero => simp [burst, he, ih h]
      | succ j => simp [burst, he, ih h]

/-- A burst ends with its last datum. -/
theorem burst_last {ds : List D} {j m : ℕ} {d : D} (h : (burst last j ds)[m]? = some d) (hlast : last d = true) : (burst last j ds).length = m + 1 := by
  induction ds generalizing j m with
  | nil => cases j <;> simp [burst] at h
  | cons e ds ih =>
    cases j with
    | zero =>
      rw [burst] at h ⊢
      by_cases he : last e = true
      · rw [if_pos he] at h ⊢
        cases m <;> simp_all
      · rw [if_neg he] at h ⊢
        cases m with
        | zero => exact absurd (Option.some.inj h ▸ hlast) he
        | succ m =>
          rw [List.getElem?_cons_succ] at h
          rw [List.length_cons, ih h]
    | succ j =>
      rw [burst] at h ⊢
      exact ih h

theorem mem_of_mem_burst {ds : List D} {j : ℕ} {d : D} (h : d ∈ burst last j ds) : d ∈ ds := by
  induction ds generalizing j with
  | nil => cases j <;> cases h
  | cons e ds ih =>
    cases j with
    | zero =>
      rw [burst] at h
      obtain rfl | h := List.mem_cons.1 h
      · exact List.mem_cons_self
      · split at h
        · cases h
        · exact List.mem_cons_of_mem e (ih h)
    | succ j =>
      rw [burst] at h
      exact List.mem_cons_of_mem e (ih h)

end Burst

/-! ### Keys -/

section Keys

variable [DecidableEq K] (key : α → K) (κ : K)

/-- What has a key, in order. -/
def ofKey (l : List α) : List α := l.filter fun a => decide (key a = κ)

theorem ofKey_append (l l' : List α) : ofKey key κ (l ++ l') = ofKey key κ l ++ ofKey key κ l' := List.filter_append l l'

variable {key κ}

theorem ofKey_cons_self {a : α} (h : key a = κ) (l : List α) : ofKey key κ (a :: l) = a :: ofKey key κ l :=
  List.filter_cons_of_pos (decide_eq_true h)

theorem ofKey_cons_of_ne {a : α} (h : key a ≠ κ) (l : List α) : ofKey key κ (a :: l) = ofKey key κ l :=
  List.filter_cons_of_neg fun hd => h (of_decide_eq_true hd)

theorem ofKey_eq_nil {l : List α} (h : ∀ a ∈ l, key a ≠ κ) : ofKey key κ l = [] :=
  List.filter_eq_nil_iff.2 fun a ha hd => h a ha (of_decide_eq_true hd)

theorem mem_ofKey {a : α} {l : List α} : a ∈ ofKey key κ l ↔ a ∈ l ∧ key a = κ := by
  rw [ofKey, List.mem_filter, decide_eq_true_eq]

end Keys

/-! ### What is charged -/

section Charged

variable [DecidableEq K] (keyT : T → K) (keyD : D → K) (last : D → Bool)

/-- The data of a key that was charged. -/
def taken (κ : K) (charged : List (T × D)) : List D := (ofKey (fun c => keyT c.1) κ charged).map (·.2)

variable {keyT keyD last} {addrs pending pre post : List T} {beats queue qpre qpost : List D} {charged : List (T × D)} {t : T} {d : D} {κ : K}

/-- What a datum that is charged adds. -/
theorem snd_ofKey_concat (key : T × D → K) (κ : K) : (ofKey key κ (charged ++ [(t, d)])).map (·.2) =
    (ofKey key κ charged).map (·.2) ++ if key (t, d) = κ then [d] else [] := by
  rw [ofKey_append, List.map_append]
  split
  · rename_i h
    rw [ofKey_cons_self h]
    rfl
  · rename_i h
    rw [ofKey_cons_of_ne h]
    rfl

theorem taken_concat_self (h : keyT t = κ) : taken keyT κ (charged ++ [(t, d)]) = taken keyT κ charged ++ [d] :=
  (snd_ofKey_concat (fun c => keyT c.1) κ).trans (by rw [if_pos h]; rfl)

theorem taken_concat_of_ne (h : keyT t ≠ κ) : taken keyT κ (charged ++ [(t, d)]) = taken keyT κ charged :=
  (snd_ofKey_concat (fun c => keyT c.1) κ).trans (by rw [if_neg h, List.append_nil]; rfl)

variable [DecidableEq T]

/-- The data that was charged to `t`. -/
def chargedTo (t : T) (charged : List (T × D)) : List D := (ofKey Prod.fst t charged).map (·.2)

variable (keyT keyD last) in
/-- What holds of what arrived, what is kept, and what was charged. -/
structure Paired (addrs : List T) (beats : List D) (pending : List T) (queue : List D) (charged : List (T × D)) : Prop where
  nodup : addrs.Nodup
  mem : ∀ c ∈ charged, c.1 ∈ addrs
  queue : ∀ κ, ofKey keyD κ beats = taken keyT κ charged ++ ofKey keyD κ queue
  pending : ∀ κ, ofKey keyT κ pending = (ofKey keyT κ addrs).drop ((taken keyT κ charged).countP last)
  bound : ∀ κ, (taken keyT κ charged).countP last ≤ (ofKey keyT κ addrs).length
  none : ∀ κ j, (ofKey keyT κ addrs).length ≤ j → burst last j (taken keyT κ charged) = []
  charged : ∀ κ j t, (ofKey keyT κ addrs)[j]? = some t → chargedTo t charged = burst last j (taken keyT κ charged)

theorem chargedTo_concat_self : chargedTo t (charged ++ [(t, d)]) = chargedTo t charged ++ [d] :=
  (snd_ofKey_concat Prod.fst t).trans (by rw [if_pos rfl]; rfl)

theorem chargedTo_concat_of_ne {t' : T} (h : t ≠ t') : chargedTo t' (charged ++ [(t, d)]) = chargedTo t' charged :=
  (snd_ofKey_concat Prod.fst t').trans (by rw [if_neg h, List.append_nil]; rfl)

theorem Paired.nil : Paired keyT keyD last [] [] [] [] [] := by
  refine ⟨List.nodup_nil, nofun, fun κ => rfl, fun κ => rfl, fun κ => le_rfl, fun κ j _ => ?_, fun κ j t ht => ?_⟩
  · cases j <;> rfl
  · cases ht

theorem Paired.chargedTo_of_not_mem (h : Paired keyT keyD last addrs beats pending queue charged) (hnew : t ∉ addrs) : chargedTo t charged = [] := by
  unfold chargedTo
  rw [ofKey_eq_nil]
  · rfl
  · rintro c hc rfl
    exact hnew (h.mem c hc)

/-- An announcement arrives. -/
theorem Paired.address (h : Paired keyT keyD last addrs beats pending queue charged) (hnew : t ∉ addrs) :
    Paired keyT keyD last (addrs ++ [t]) beats (pending ++ [t]) queue charged := by
  have hnone := h.chargedTo_of_not_mem hnew
  refine ⟨h.nodup.append (List.nodup_singleton t) (List.disjoint_singleton.2 hnew), fun c hc => List.mem_append_left _ (h.mem c hc), h.queue, fun κ => ?_,
    fun κ => ?_, fun κ j hj => ?_, fun κ j t' ht' => ?_⟩
  · rw [ofKey_append, ofKey_append, List.drop_append_of_le_length (h.bound κ), h.pending]
  · rw [ofKey_append, List.length_append]
    exact (h.bound κ).trans (Nat.le_add_right _ _)
  · rw [ofKey_append, List.length_append] at hj
    exact h.none κ j ((Nat.le_add_right _ _).trans hj)
  · rw [ofKey_append] at ht'
    by_cases hj : j < (ofKey keyT κ addrs).length
    · rw [List.getElem?_append_left hj] at ht'
      exact h.charged κ j t' ht'
    · -- the new one is the only one further on
      have hmem : t' ∈ ofKey keyT κ [t] := by
        rw [List.getElem?_append_right (not_lt.1 hj)] at ht'
        exact List.mem_of_getElem? ht'
      rw [List.mem_singleton.1 (mem_ofKey.1 hmem).1, hnone, h.none κ j (not_lt.1 hj)]

/-- A datum arrives. -/
theorem Paired.datum (h : Paired keyT keyD last addrs beats pending queue charged) (d : D) :
    Paired keyT keyD last addrs (beats ++ [d]) pending (queue ++ [d]) charged := by
  refine ⟨h.nodup, h.mem, fun κ => ?_, h.pending, h.bound, h.none, h.charged⟩
  rw [ofKey_append, ofKey_append, h.queue, List.append_assoc]

/-- The first of a key stands once in the list. -/
theorem Paired.not_mem (h : Paired keyT keyD last addrs beats (pre ++ t :: post) queue charged) (hpre : ∀ t' ∈ pre, keyT t' ≠ keyT t) :
    t ∉ pre ∧ t ∉ post := by
  refine ⟨fun hin => hpre t hin rfl, fun hin => ?_⟩
  have hnodup : (ofKey keyT (keyT t) (pre ++ t :: post)).Nodup := by
    rw [h.pending]
    exact (h.nodup.filter _).sublist (List.drop_sublist _ _)
  rw [ofKey_append, ofKey_eq_nil hpre, List.nil_append, ofKey_cons_self rfl] at hnodup
  exact (List.nodup_cons.1 hnodup).1 (mem_ofKey.2 ⟨hin, rfl⟩)

/-- A datum is charged to the first of its key, which is over with a last one. -/
theorem Paired.charge (h : Paired keyT keyD last addrs beats (pre ++ t :: post) (qpre ++ d :: qpost) charged)
    (hpre : ∀ t' ∈ pre, keyT t' ≠ keyT t) (hqpre : ∀ d' ∈ qpre, keyD d' ≠ keyT t) (hkey : keyD d = keyT t) :
    Paired keyT keyD last addrs beats (pre ++ if last d = true then post else t :: post) (qpre ++ qpost) (charged ++ [(t, d)]) := by
  have hfirst : ofKey keyT (keyT t) (pre ++ t :: post) = t :: ofKey keyT (keyT t) post := by
    rw [ofKey_append, ofKey_eq_nil hpre, List.nil_append, ofKey_cons_self rfl]
  have hdrop := hfirst.symm.trans (h.pending (keyT t))
  have hat : (ofKey keyT (keyT t) addrs)[(taken keyT (keyT t) charged).countP last]? = some t := by
    rw [← List.head?_drop, ← hdrop]
    rfl
  have hlt : (taken keyT (keyT t) charged).countP last < (ofKey keyT (keyT t) addrs).length := (List.getElem?_eq_some_iff.1 hat).1
  refine ⟨h.nodup, fun c hc => ?_, fun κ => ?_, fun κ => ?_, fun κ => ?_, fun κ j hj => ?_, fun κ j t' ht' => ?_⟩
  · obtain hold | hnew := List.mem_append.1 hc
    · exact h.mem c hold
    · rw [List.mem_singleton.1 hnew]
      exact (mem_ofKey.1 (List.mem_of_getElem? hat)).1
  · have hqueue := h.queue κ
    rw [ofKey_append] at hqueue ⊢
    by_cases hκ : keyT t = κ
    · subst hκ
      rw [taken_concat_self rfl, hqueue, ofKey_eq_nil hqpre, ofKey_cons_self hkey, List.nil_append, List.nil_append, List.append_assoc]
      rfl
    · rw [taken_concat_of_ne hκ, hqueue, ofKey_cons_of_ne (hkey ▸ hκ)]
  · have hpending := h.pending κ
    by_cases hκ : keyT t = κ
    · subst hκ
      rw [taken_concat_self rfl, List.countP_append, List.countP_singleton, ofKey_append, ofKey_eq_nil hpre, List.nil_append]
      split
      · rw [← List.drop_drop, ← hdrop]
        rfl
      · rw [ofKey_cons_self rfl, hdrop]
        rfl
    · rw [taken_concat_of_ne hκ, ← hpending, ofKey_append, ofKey_append, ofKey_cons_of_ne hκ]
      split
      · rfl
      · rw [ofKey_cons_of_ne hκ]
  · by_cases hκ : keyT t = κ
    · subst hκ
      rw [taken_concat_self rfl, List.countP_append, List.countP_singleton]
      split
      · exact hlt
      · exact hlt.le
    · rw [taken_concat_of_ne hκ]
      exact h.bound κ
  · by_cases hκ : keyT t = κ
    · subst hκ
      rw [taken_concat_self rfl, burst_concat, if_neg (hlt.trans_le hj).ne, h.none _ j hj, List.append_nil]
    · rw [taken_concat_of_ne hκ]
      exact h.none κ j hj
  · by_cases hκ : keyT t = κ
    · subst hκ
      rw [taken_concat_self rfl, burst_concat, ← h.charged _ j t' ht']
      by_cases hj : (taken keyT (keyT t) charged).countP last = j
      · subst hj
        obtain rfl : t = t' := Option.some.inj (hat.symm.trans ht')
        rw [if_pos rfl, chargedTo_concat_self]
      · -- every place of the list holds another
        have hne : t ≠ t' := by
          rintro rfl
          exact hj ((List.getElem?_inj hlt (h.nodup.filter _)).1 (hat.trans ht'.symm))
        rw [if_neg hj, List.append_nil, chargedTo_concat_of_ne hne]
    · have hne : t ≠ t' := by
        rintro rfl
        exact hκ (mem_ofKey.1 (List.mem_of_getElem? ht')).2
      rw [taken_concat_of_ne hκ, chargedTo_concat_of_ne hne]
      exact h.charged κ j t' ht'

/-- **Each announcement was charged with its own burst**, when no key has both something pending and data in the queue. -/
theorem Paired.settled (h : Paired keyT keyD last addrs beats pending queue charged) (hdone : ofKey keyT κ pending = [] ∨ ofKey keyD κ queue = [])
    {j : ℕ} (ht : (ofKey keyT κ addrs)[j]? = some t) : chargedTo t charged = burst last j (ofKey keyD κ beats) := by
  rw [h.queue, h.charged κ j t ht]
  obtain hpending | hqueue := hdone
  · have hlen := List.drop_eq_nil_iff.1 ((h.pending κ).symm.trans hpending)
    exact (burst_append ((List.getElem?_eq_some_iff.1 ht).1.trans_le hlen) _).symm
  · rw [hqueue, List.append_nil]

end Charged

end LibSystemCTLM.Foundation.Pairing
