import LibSystemCTLM.Foundation.Instances
import Mathlib.Data.BitVec

/-!
# The control word of a flit

Beside its data, a flit has a control word that says where in it TLPs start and end (`CXSCntl`): a
bit for each start and a pointer of `START_PTR_WIDTH` bits, and a bit for each end and a pointer of
`END_PTR_WIDTH` bits. Where these lie depends on the width of the flits and on `MAX_PKT_PER_FLIT`.

The word has 64 bits, but it is joined of shifted values of 32 bits: of a pointer that reaches over
bit 31, bits are lost, or the shift is undefined (`none`). The pointers are read back exactly if
none does (`parse_toUint64_iff`).
-/

namespace LibSystemCTLM.Ccix.Cxs

/-- `CXS_LOG2`. -/
def cxsLog2 (x : ℕ) : ℕ := if x = 2 then 1 else if x = 4 then 2 else if x = 8 then 3 else if x = 16 then 4 else 5

/-- The template arguments of a bridge. -/
structure Config where
  flitWidth : ℕ
  maxPktPerFlit : ℕ
  width : flitWidth = 256 ∨ flitWidth = 512 ∨ flitWidth = 1024

namespace Config

variable (cfg : Config)

def startPtrWidth : ℕ := cxsLog2 (cfg.flitWidth / 128)

def endPtrWidth : ℕ := cxsLog2 (cfg.flitWidth / 32)

def cntlWidth : ℕ := 3 * cfg.maxPktPerFlit + cfg.maxPktPerFlit * cfg.startPtrWidth + cfg.maxPktPerFlit * cfg.endPtrWidth

/-- `EndBits_Shift`. -/
def endBitsShift : ℕ := cfg.maxPktPerFlit + cfg.maxPktPerFlit * cfg.startPtrWidth

/-- `EndPtrs_Shift`, behind the bits for the ends and for the errors. -/
def endPtrsShift : ℕ := cfg.endBitsShift + cfg.maxPktPerFlit + cfg.maxPktPerFlit

end Config

/-- `StartPtr_Mask` and `EndPtr_Mask`. -/
def ptrMask (w : ℕ) : BitVec 32 := 1#32 <<< w - 1

/-- `CXSCntl`: `m_startPtrs` and `m_endPtrs`. -/
structure CXSCntl where
  startPtrs : List (BitVec 32) := []
  endPtrs : List (BitVec 32) := []
  deriving DecidableEq

/-- `1 << n` of an `int`, which does not reach the sign. -/
def one (n : ℕ) : Option (BitVec 64) := if n < 31 then some (1#64 <<< n) else none

/-- `v << n` of an `unsigned int`. -/
def shl (v : BitVec 32) (n : ℕ) : Option (BitVec 64) := if n < 32 then some ((v <<< n).setWidth 64) else none

/-- `v >> n` of a `uint64_t`. -/
def shr (v : BitVec 64) (n : ℕ) : Option (BitVec 64) := if n < 64 then some (v >>> n) else none

/-- A loop of `to_uint64`: a bit for each pointer, from `bits` on, and the pointers of `w` bits, from `ptrs` on. -/
def place (bits ptrs w : ℕ) : ℕ → List (BitVec 32) → Option (BitVec 64)
  | _, [] => some 0
  | i, p :: ps => do return (← one (bits + i)) ||| (← shl (p &&& ptrMask w) (ptrs + i * w)) ||| (← place bits ptrs w (i + 1) ps)

/-- A loop of `ParseCntl`, from the pointer `i` on. -/
def parse (bits ptrs w : ℕ) (cntl : BitVec 64) : ℕ → ℕ → Option (List (BitVec 32))
  | 0, _ => some []
  | n + 1, i => do
    let bit ← shr cntl (bits + i)
    if bit &&& 1 = 0 then parse bits ptrs w cntl n (i + 1)
    else do
      let ptr ← shr cntl (ptrs + i * w)
      return (ptr.setWidth 32 &&& ptrMask w) :: (← parse bits ptrs w cntl n (i + 1))

namespace CXSCntl

variable (cfg : Config) (c : CXSCntl)

/-- `AddStartPtr`, which counts in steps of 128 bits. -/
def addStartPtr (flitPos : ℕ) : CXSCntl := { c with startPtrs := c.startPtrs ++ [BitVec.ofNat 32 (flitPos / 128)] }

/-- `AddEndPtr`, which counts in steps of 32 bits. -/
def addEndPtr (flitPos : ℕ) : CXSCntl := { c with endPtrs := c.endPtrs ++ [BitVec.ofNat 32 (flitPos / 32)] }

/-- `to_uint64`. -/
def toUint64 : Option (BitVec 64) := do
  return (← place 0 cfg.maxPktPerFlit cfg.startPtrWidth 0 c.startPtrs) |||
    (← place cfg.endBitsShift cfg.endPtrsShift cfg.endPtrWidth 0 c.endPtrs)

/-- `ParseCntl`. -/
def parseCntl (cntl : BitVec 64) : Option CXSCntl := do
  return { startPtrs := ← parse 0 cfg.maxPktPerFlit cfg.startPtrWidth cntl cfg.maxPktPerFlit 0
           endPtrs := ← parse cfg.endBitsShift cfg.endPtrsShift cfg.endPtrWidth cntl cfg.maxPktPerFlit 0 }

end CXSCntl

/-! ### Pointers that are lost -/

/-- The bits of a loop are below bit 31, and the pointers do not reach over it. -/
def PtrsFit (bits ptrs w : ℕ) (ps : List (BitVec 32)) : Prop :=
  ∀ i (h : i < ps.length), bits + i < 31 ∧ ptrs + i * w < 32 ∧ ps[i].toNat * 2 ^ (ptrs + i * w) < 2 ^ 32

/-- What is left of a pointer that is shifted. -/
def kept (n : ℕ) (p : BitVec 32) : BitVec 32 := p <<< n >>> n

section Loops

variable {bits ptrs w i j n : ℕ} {p : BitVec 32} {ps qs : List (BitVec 32)} {u v : BitVec 64}

theorem toNat_ptrMask (hw : w < 32) : (ptrMask w).toNat = 2 ^ w - 1 := by
  have hlt : 2 ^ w < 2 ^ 32 := Nat.pow_lt_pow_right (by decide) hw
  have hpos : 0 < 2 ^ w := Nat.two_pow_pos w
  have hone : (1#32 <<< w).toNat = 2 ^ w := by
    rw [BitVec.toNat_shiftLeft, Nat.shiftLeft_eq]
    show 1 * 2 ^ w % 2 ^ 32 = 2 ^ w
    rw [Nat.one_mul, Nat.mod_eq_of_lt hlt]
  rw [ptrMask, BitVec.toNat_sub, hone]
  show (2 ^ 32 - 1 + 2 ^ w) % 2 ^ 32 = _
  omega

theorem getLsbD_ptrMask (hw : w < 32) (j : ℕ) : (ptrMask w).getLsbD j = decide (j < w) := by
  rw [← BitVec.testBit_toNat, toNat_ptrMask hw, Nat.testBit_two_pow_sub_one]

theorem getLsbD_of_lt (hp : p.toNat < 2 ^ w) (hj : w ≤ j) : p.getLsbD j = false := by
  rw [← BitVec.testBit_toNat]
  exact Nat.testBit_lt_two_pow (hp.trans_le (Nat.pow_le_pow_right (by decide) hj))

theorem and_ptrMask (hw : w < 32) (hp : p.toNat < 2 ^ w) : p &&& ptrMask w = p := by
  apply BitVec.eq_of_getLsbD_eq
  intro j _
  rw [BitVec.getLsbD_and, getLsbD_ptrMask hw]
  by_cases hj : j < w
  · simp [hj]
  · simp [getLsbD_of_lt hp (Nat.not_lt.1 hj)]

theorem getLsbD_kept (n j : ℕ) (p : BitVec 32) : (kept n p).getLsbD j = (decide (n + j < 32) && p.getLsbD j) := by
  rw [kept, BitVec.getLsbD_ushiftRight, BitVec.getLsbD_shiftLeft, Nat.add_sub_cancel_left, decide_eq_false (by omega : ¬ n + j < n)]
  simp

/-- A pointer is kept whole exactly if it does not reach over bit 31. -/
theorem kept_eq_iff (n : ℕ) (p : BitVec 32) : kept n p = p ↔ p.toNat * 2 ^ n < 2 ^ 32 := by
  have hpos : 0 < 2 ^ n := Nat.two_pow_pos n
  rw [← BitVec.toNat_inj, kept, BitVec.toNat_ushiftRight, BitVec.toNat_shiftLeft, Nat.shiftLeft_eq, Nat.shiftRight_eq_div_pow]
  constructor
  · intro h
    have hle := Nat.div_mul_le_self (p.toNat * 2 ^ n % 2 ^ 32) (2 ^ n)
    rw [h] at hle
    exact hle.trans_lt (Nat.mod_lt _ (by decide))
  · intro h
    rw [Nat.mod_eq_of_lt h, Nat.mul_div_cancel _ hpos]

/-! ### The loops -/

theorem one_eq_some : one n = some u ↔ n < 31 ∧ 1#64 <<< n = u := by
  rw [one, Option.ite_none_right_eq_some, Option.some.injEq]

theorem shl_eq_some : shl p n = some u ↔ n < 32 ∧ (p <<< n).setWidth 64 = u := by
  rw [shl, Option.ite_none_right_eq_some, Option.some.injEq]

theorem place_cons_eq_some : place bits ptrs w i (p :: ps) = some v ↔ ∃ u, place bits ptrs w (i + 1) ps = some u ∧ bits + i < 31 ∧
    ptrs + i * w < 32 ∧ 1#64 <<< (bits + i) ||| ((p &&& ptrMask w) <<< (ptrs + i * w)).setWidth 64 ||| u = v := by
  simp only [place, Option.bind_eq_bind, Option.bind_eq_some_iff, one_eq_some, shl_eq_some, Option.pure_def, Option.some.injEq]
  constructor
  · rintro ⟨_, ⟨h₁, rfl⟩, _, ⟨h₂, rfl⟩, u, hu, rfl⟩
    exact ⟨u, hu, h₁, h₂, rfl⟩
  · rintro ⟨u, hu, h₁, h₂, rfl⟩
    exact ⟨_, ⟨h₁, rfl⟩, _, ⟨h₂, rfl⟩, u, hu, rfl⟩

/-- All that is shifted is defined if it is placed. -/
theorem place_isSome_iff : (∃ v, place bits ptrs w i ps = some v) ↔ ∀ k < ps.length, bits + (i + k) < 31 ∧ ptrs + (i + k) * w < 32 := by
  induction ps generalizing i with
  | nil => simp [place]
  | cons p ps ih =>
    have hsucc : ∀ k, i + 1 + k = i + (k + 1) := fun k => by omega
    constructor
    · rintro ⟨v, hv⟩ k hk
      obtain ⟨u, hu, h₁, h₂, -⟩ := place_cons_eq_some.1 hv
      cases k with
      | zero => exact ⟨h₁, h₂⟩
      | succ k =>
        have hrest := ih.1 ⟨u, hu⟩ k (Nat.lt_of_succ_lt_succ hk)
        rwa [hsucc] at hrest
    · intro h
      obtain ⟨u, hu⟩ := ih.2 fun k hk => by
        have hrest := h (k + 1) (Nat.succ_lt_succ hk)
        rwa [← hsucc] at hrest
      have hone := h 0 (Nat.succ_pos _)
      exact ⟨_, place_cons_eq_some.2 ⟨u, hu, hone.1, hone.2, rfl⟩⟩

/-- **The bits that are placed**: one for each pointer, and those of the pointers. -/
theorem getLsbD_place (hw : w < 32) (h : place bits ptrs w i ps = some v) (hps : ∀ p ∈ ps, p.toNat < 2 ^ w) (j : ℕ) : v.getLsbD j = true ↔
    ∃ k, ∃ hk : k < ps.length, j = bits + (i + k) ∨ ptrs + (i + k) * w ≤ j ∧ j < 32 ∧ ps[k].getLsbD (j - (ptrs + (i + k) * w)) = true := by
  induction ps generalizing i v with
  | nil =>
    obtain rfl := Option.some.inj h
    simp
  | cons p ps ih =>
    obtain ⟨u, hu, h₁, h₂, rfl⟩ := place_cons_eq_some.1 h
    have hsucc : ∀ k, i + 1 + k = i + (k + 1) := fun k => by omega
    have hone : (1#64 <<< (bits + i)).getLsbD j = true ↔ j = bits + i := by
      rw [BitVec.getLsbD_shiftLeft, BitVec.getLsbD_one]
      simp only [Bool.and_eq_true, decide_eq_true_eq, Bool.not_eq_true', decide_eq_false_iff_not]
      omega
    have hptr : (((p &&& ptrMask w) <<< (ptrs + i * w)).setWidth 64).getLsbD j = true ↔
        ptrs + i * w ≤ j ∧ j < 32 ∧ p.getLsbD (j - (ptrs + i * w)) = true := by
      rw [and_ptrMask hw (hps p List.mem_cons_self), BitVec.getLsbD_setWidth, BitVec.getLsbD_shiftLeft]
      simp only [Bool.and_eq_true, decide_eq_true_eq, Bool.not_eq_true', decide_eq_false_iff_not]
      constructor
      · rintro ⟨-, ⟨hlt, hge⟩, hbit⟩
        exact ⟨by omega, hlt, hbit⟩
      · rintro ⟨hge, hlt, hbit⟩
        exact ⟨by omega, ⟨hlt, by omega⟩, hbit⟩
    have hrest := ih hu fun q hq => hps q (List.mem_cons_of_mem p hq)
    rw [BitVec.getLsbD_or, BitVec.getLsbD_or, Bool.or_eq_true, Bool.or_eq_true, hone, hptr, hrest]
    constructor
    · rintro (hhead | ⟨k, hk, hbit⟩)
      · exact ⟨0, Nat.succ_pos _, hhead⟩
      · rw [hsucc] at hbit
        exact ⟨k + 1, Nat.succ_lt_succ hk, hbit⟩
    · rintro ⟨k, hk, hbit⟩
      cases k with
      | zero => exact .inl hbit
      | succ k =>
        rw [← hsucc] at hbit
        exact .inr ⟨k, Nat.lt_of_succ_lt_succ hk, hbit⟩

theorem and_one_eq_zero_iff (v : BitVec 64) (n : ℕ) : v >>> n &&& 1 = 0 ↔ v.getLsbD n = false := by
  have hbit : (v >>> n).getLsbD 0 = v.getLsbD n := by rw [BitVec.getLsbD_ushiftRight, Nat.add_zero]
  have hand : v >>> n &&& 1#64 = (BitVec.ofBool ((v >>> n).getLsbD 0)).setWidth 64 := BitVec.and_one_eq_setWidth_ofBool_getLsbD
  show v >>> n &&& 1#64 = 0#64 ↔ _
  rw [hand, hbit]
  cases v.getLsbD n <;> decide

theorem parse_succ (bits ptrs w n i : ℕ) (v : BitVec 64) : parse bits ptrs w v (n + 1) i = if bits + i < 64 then
    if v.getLsbD (bits + i) then (shr v (ptrs + i * w)).bind fun ptr => (parse bits ptrs w v n (i + 1)).map ((ptr.setWidth 32 &&& ptrMask w) :: ·)
    else parse bits ptrs w v n (i + 1) else none := by
  rw [parse]
  by_cases h : bits + i < 64
  · rw [shr, if_pos h, if_pos h, Option.bind_eq_bind, Option.bind_some]
    by_cases hbit : v.getLsbD (bits + i) = true
    · rw [if_neg (by rw [and_one_eq_zero_iff, hbit]; decide), if_pos hbit]
      show (shr v (ptrs + i * w)).bind _ = _
      congr 1
      funext ptr
      cases parse bits ptrs w v n (i + 1) <;> rfl
    · rw [if_pos (by rw [and_one_eq_zero_iff]; exact Bool.eq_false_iff.2 hbit), if_neg hbit]
  · rw [shr, if_neg h, if_neg h]
    rfl

/-- The pointers that the bits ask for are read. -/
theorem parse_eq (hlen : qs.length ≤ n) (hdef : ∀ k < n, bits + (i + k) < 64) (hbit : ∀ k < n, v.getLsbD (bits + (i + k)) = decide (k < qs.length))
    (hptr : ∀ k, ∀ hk : k < qs.length, ptrs + (i + k) * w < 64 ∧ (v >>> (ptrs + (i + k) * w)).setWidth 32 &&& ptrMask w = qs[k]) :
    parse bits ptrs w v n i = some qs := by
  induction n generalizing i qs with
  | zero =>
    rw [List.eq_nil_of_length_eq_zero (Nat.le_zero.1 hlen)]
    rfl
  | succ n ih =>
    have hsucc : ∀ k, i + 1 + k = i + (k + 1) := fun k => by omega
    have hdef₀ := hdef 0 (Nat.succ_pos n)
    have hbit₀ := hbit 0 (Nat.succ_pos n)
    rw [Nat.add_zero] at hdef₀ hbit₀
    rw [parse_succ, if_pos hdef₀, hbit₀]
    cases qs with
    | nil =>
      exact ih (Nat.zero_le n) (fun k hk => by rw [hsucc]; exact hdef _ (Nat.succ_lt_succ hk))
        (fun k hk => by rw [hsucc]; exact hbit _ (Nat.succ_lt_succ hk)) fun k hk => nomatch hk
    | cons q qs =>
      have hq := hptr 0 (Nat.succ_pos _)
      have hrest := ih (Nat.le_of_succ_le_succ hlen) (fun k hk => by rw [hsucc]; exact hdef _ (Nat.succ_lt_succ hk))
        (fun k hk => by rw [hsucc, hbit _ (Nat.succ_lt_succ hk)]; simp) fun k hk => by rw [hsucc]; exact hptr _ (Nat.succ_lt_succ hk)
      rw [Nat.add_zero] at hq
      rw [if_pos (by simp), shr, if_pos hq.1, Option.bind_some, hrest]
      exact congrArg (fun x => some (x :: qs)) hq.2

/-- Where a word is parsed, the bits are below 64. -/
theorem lt_of_parse (h : parse bits ptrs w v n i = some qs) : ∀ k < n, bits + (i + k) < 64 := by
  induction n generalizing i qs with
  | zero => exact fun k hk => nomatch hk
  | succ n ih =>
    have hsucc : ∀ k, i + 1 + k = i + (k + 1) := fun k => by omega
    rw [parse_succ] at h
    split at h
    case isFalse => cases h
    case isTrue hlt =>
      have hrest : ∃ qs', parse bits ptrs w v n (i + 1) = some qs' := by
        split at h
        · obtain ⟨_, -, h⟩ := Option.bind_eq_some_iff.1 h
          obtain ⟨qs', h, -⟩ := Option.map_eq_some_iff.1 h
          exact ⟨qs', h⟩
        · exact ⟨qs, h⟩
      obtain ⟨qs', h'⟩ := hrest
      intro k hk
      cases k with
      | zero => exact hlt
      | succ k =>
        rw [← hsucc]
        exact ih h' k (Nat.lt_of_succ_lt_succ hk)

/-- The pointers as they are read back. -/
def keptPtrs (ptrs w : ℕ) (ps : List (BitVec 32)) : List (BitVec 32) := ps.mapIdx fun k p => kept (ptrs + k * w) p

/-- **A loop reads back what is kept of the pointers**, if the word has the bits that were placed. -/
theorem parse_of_placed (hw : w < 32) (h : place bits ptrs w 0 ps = some u) (hps : ∀ p ∈ ps, p.toNat < 2 ^ w) (hn : ps.length ≤ n)
    (hsep : bits + n ≤ ptrs) (h64 : ∀ k < n, bits + k < 64)
    (hv : ∀ j, bits ≤ j ∧ j < bits + n ∨ ptrs ≤ j ∧ j < ptrs + n * w → v.getLsbD j = u.getLsbD j) :
    parse bits ptrs w v n 0 = some (keptPtrs ptrs w ps) := by
  have hlt := place_isSome_iff.1 ⟨u, h⟩
  have hlen : (keptPtrs ptrs w ps).length = ps.length := List.length_mapIdx
  refine parse_eq (by rw [hlen]; exact hn) (fun k hk => by rw [Nat.zero_add]; exact h64 k hk) (fun k hk => ?_) fun k hk => ?_
  · rw [Nat.zero_add, hv _ (.inl ⟨by omega, by omega⟩), Bool.eq_iff_iff, getLsbD_place hw h hps, decide_eq_true_iff, hlen]
    constructor
    · rintro ⟨k', hk', hj | hj⟩
      · omega
      · have hle : ptrs ≤ bits + k := (Nat.le_add_right _ _).trans hj.1
        omega
    · exact fun hk' => ⟨k, hk', .inl (by omega)⟩
  · have hk' : k < ps.length := hlen ▸ hk
    have hsh := (hlt k hk').2
    rw [Nat.zero_add] at hsh ⊢
    refine ⟨by omega, ?_⟩
    apply BitVec.eq_of_getLsbD_eq
    intro j hj
    have hget : (keptPtrs ptrs w ps)[k] = kept (ptrs + k * w) ps[k] := List.getElem_mapIdx ..
    rw [hget, getLsbD_kept, BitVec.getLsbD_and, getLsbD_ptrMask hw, BitVec.getLsbD_setWidth, BitVec.getLsbD_ushiftRight, decide_eq_true hj,
      Bool.true_and]
    by_cases hjw : j < w
    · have hnext : ∀ a b, a < b → a * w + w ≤ b * w := fun a b hab => by
        rw [← Nat.succ_mul]
        exact Nat.mul_le_mul_right w hab
      have hend := hnext k n (by omega)
      rw [hv _ (.inr ⟨by omega, by omega⟩), decide_eq_true hjw, Bool.and_true, Bool.eq_iff_iff, getLsbD_place hw h hps, Bool.and_eq_true,
        decide_eq_true_iff]
      constructor
      · rintro ⟨k', hk', hj' | ⟨hle, hlt', hbit⟩⟩
        · omega
        · rw [Nat.zero_add] at hle hbit
          rcases Nat.lt_trichotomy k' k with hlt | rfl | hlt
          · have hgap := hnext k' k hlt
            rw [getLsbD_of_lt (hps _ (List.getElem_mem hk')) (by omega)] at hbit
            cases hbit
          · rw [Nat.add_sub_cancel_left] at hbit
            exact ⟨hlt', hbit⟩
          · have hgap := hnext k k' hlt
            omega
      · rintro ⟨hlt', hbit⟩
        refine ⟨k, hk', .inr ?_⟩
        rw [Nat.zero_add, Nat.add_sub_cancel_left]
        exact ⟨Nat.le_add_right _ _, hlt', hbit⟩
    · rw [decide_eq_false hjw, getLsbD_of_lt (hps _ (List.getElem_mem hk')) (Nat.not_lt.1 hjw), Bool.and_false, Bool.and_false]

/-- All pointers are kept exactly if they fit. -/
theorem keptPtrs_eq_iff : keptPtrs ptrs w ps = ps ↔ ∀ k, ∀ h : k < ps.length, ps[k].toNat * 2 ^ (ptrs + k * w) < 2 ^ 32 := by
  have hget : ∀ k, ∀ _ : k < (keptPtrs ptrs w ps).length, ∀ h : k < ps.length, (keptPtrs ptrs w ps)[k] = kept (ptrs + k * w) ps[k] :=
    fun k _ h => List.getElem_mapIdx ..
  constructor
  · intro heq k hk
    have hk' := hget k (by rw [heq]; exact hk) hk
    simp only [heq] at hk'
    exact (kept_eq_iff _ _).1 hk'.symm
  · intro h
    refine List.ext_getElem List.length_mapIdx fun k hk' hk => ?_
    rw [hget k hk' hk, (kept_eq_iff _ _).2 (h k hk)]

end Loops

namespace CXSCntl

variable {cfg : Config} {c : CXSCntl} {v : BitVec 64}

/-- The pointers of a flit: no more than `MAX_PKT_PER_FLIT`, each of the width it has. -/
structure Valid (cfg : Config) (c : CXSCntl) : Prop where
  starts : c.startPtrs.length ≤ cfg.maxPktPerFlit
  ends : c.endPtrs.length ≤ cfg.maxPktPerFlit
  startPtr : ∀ p ∈ c.startPtrs, p.toNat < 2 ^ cfg.startPtrWidth
  endPtr : ∀ p ∈ c.endPtrs, p.toNat < 2 ^ cfg.endPtrWidth

/-- **No bit for a start or an end is at bit 31 or behind it, no pointer reaches over bit 31**, and the bits for the ends are below 64. -/
structure Fits (cfg : Config) (c : CXSCntl) : Prop where
  starts : PtrsFit 0 cfg.maxPktPerFlit cfg.startPtrWidth c.startPtrs
  ends : PtrsFit cfg.endBitsShift cfg.endPtrsShift cfg.endPtrWidth c.endPtrs
  bits : ∀ k < cfg.maxPktPerFlit, cfg.endBitsShift + k < 64

theorem width_lt (cfg : Config) : cfg.startPtrWidth < 32 ∧ cfg.endPtrWidth < 32 := by
  unfold Config.startPtrWidth Config.endPtrWidth
  rcases cfg.width with h | h | h <;> rw [h] <;> decide

theorem toUint64_eq_some : c.toUint64 cfg = some v ↔ ∃ s e, place 0 cfg.maxPktPerFlit cfg.startPtrWidth 0 c.startPtrs = some s ∧
    place cfg.endBitsShift cfg.endPtrsShift cfg.endPtrWidth 0 c.endPtrs = some e ∧ s ||| e = v := by
  simp only [toUint64, Option.bind_eq_bind, Option.bind_eq_some_iff, Option.pure_def, Option.some.injEq]
  exact ⟨fun ⟨s, hs, e, he, h⟩ => ⟨s, e, hs, he, h⟩, fun ⟨s, e, hs, he, h⟩ => ⟨s, hs, e, he, h⟩⟩

/-- **What is read back of the pointers**, from any word with the bits of the control word up to `CNTL_WIDTH`. -/
theorem parse_kept {u : BitVec 64} (hc : c.Valid cfg) (h : c.toUint64 cfg = some v) (hbits : ∀ k < cfg.maxPktPerFlit, cfg.endBitsShift + k < 64)
    (hu : ∀ j < cfg.cntlWidth, u.getLsbD j = v.getLsbD j) : parseCntl cfg u =
      some { startPtrs := keptPtrs cfg.maxPktPerFlit cfg.startPtrWidth c.startPtrs
             endPtrs := keptPtrs cfg.endPtrsShift cfg.endPtrWidth c.endPtrs } := by
  obtain ⟨s, e, hs, he, rfl⟩ := toUint64_eq_some.1 h
  obtain ⟨hws, hwe⟩ := width_lt cfg
  have hP : cfg.endPtrsShift = cfg.endBitsShift + cfg.maxPktPerFlit + cfg.maxPktPerFlit := rfl
  have hB : cfg.endBitsShift = cfg.maxPktPerFlit + cfg.maxPktPerFlit * cfg.startPtrWidth := rfl
  have hC : cfg.cntlWidth = 3 * cfg.maxPktPerFlit + cfg.maxPktPerFlit * cfg.startPtrWidth + cfg.maxPktPerFlit * cfg.endPtrWidth := rfl
  have hlow : ∀ j < cfg.endBitsShift, e.getLsbD j = false := fun j hj => Bool.eq_false_iff.2 fun hbit => by
    obtain ⟨k, -, hk | ⟨hk, -⟩⟩ := (getLsbD_place hwe he hc.endPtr j).1 hbit
    · omega
    · have hle : cfg.endPtrsShift ≤ j := (Nat.le_add_right _ _).trans hk
      omega
  have hhigh : ∀ j, cfg.endBitsShift ≤ j → s.getLsbD j = false := fun j hj => Bool.eq_false_iff.2 fun hbit => by
    obtain ⟨k, hk, hk' | ⟨hle, -, hptr⟩⟩ := (getLsbD_place hws hs hc.startPtr j).1 hbit
    · have hN := hc.starts
      omega
    · have hnext : k * cfg.startPtrWidth + cfg.startPtrWidth ≤ cfg.maxPktPerFlit * cfg.startPtrWidth := by
        rw [← Nat.succ_mul]
        exact Nat.mul_le_mul_right _ (hk.trans_le hc.starts)
      rw [Nat.zero_add] at hle hptr
      rw [getLsbD_of_lt (hc.startPtr _ (List.getElem_mem hk)) (by omega)] at hptr
      cases hptr
  have hstarts : parse 0 cfg.maxPktPerFlit cfg.startPtrWidth u cfg.maxPktPerFlit 0 =
      some (keptPtrs cfg.maxPktPerFlit cfg.startPtrWidth c.startPtrs) :=
    parse_of_placed hws hs hc.startPtr hc.starts (by omega) (fun k hk => by have hlt := hbits k hk; omega) fun j hj => by
      rw [hu j (by omega), BitVec.getLsbD_or, hlow j (by omega), Bool.or_false]
  have hends : parse cfg.endBitsShift cfg.endPtrsShift cfg.endPtrWidth u cfg.maxPktPerFlit 0 =
      some (keptPtrs cfg.endPtrsShift cfg.endPtrWidth c.endPtrs) :=
    parse_of_placed hwe he hc.endPtr hc.ends (by omega) hbits fun j hj => by
      rw [hu j (by omega), BitVec.getLsbD_or, hhigh j (by omega), Bool.false_or]
  rw [parseCntl, hstarts, hends]
  rfl

theorem Fits.toUint64 (h : c.Fits cfg) : ∃ v, c.toUint64 cfg = some v := by
  obtain ⟨s, hs⟩ : ∃ s, place 0 cfg.maxPktPerFlit cfg.startPtrWidth 0 c.startPtrs = some s := place_isSome_iff.2 fun k hk => by
    rw [Nat.zero_add k]
    exact ⟨(h.starts k hk).1, (h.starts k hk).2.1⟩
  obtain ⟨e, he⟩ : ∃ e, place cfg.endBitsShift cfg.endPtrsShift cfg.endPtrWidth 0 c.endPtrs = some e := place_isSome_iff.2 fun k hk => by
    rw [Nat.zero_add k]
    exact ⟨(h.ends k hk).1, (h.ends k hk).2.1⟩
  exact ⟨_, toUint64_eq_some.2 ⟨s, e, hs, he, rfl⟩⟩

/-- Pointers that fit are read from the bits up to `CNTL_WIDTH`. -/
theorem Fits.parse {u : BitVec 64} (h : c.Fits cfg) (hc : c.Valid cfg) (hv : c.toUint64 cfg = some v)
    (hu : ∀ j < cfg.cntlWidth, u.getLsbD j = v.getLsbD j) : parseCntl cfg u = some c := by
  rw [parse_kept hc hv h.bits hu, keptPtrs_eq_iff.2 fun k hk => (h.starts k hk).2.2, keptPtrs_eq_iff.2 fun k hk => (h.ends k hk).2.2]

/-- **The pointers are read back exactly if they fit.** -/
theorem parse_toUint64_iff (hc : c.Valid cfg) : (c.toUint64 cfg).bind (parseCntl cfg) = some c ↔ c.Fits cfg := by
  constructor
  · intro h
    obtain ⟨v, hv, hparse⟩ := Option.bind_eq_some_iff.1 h
    obtain ⟨s, e, hs, he, -⟩ := toUint64_eq_some.1 hv
    have hbits : ∀ k < cfg.maxPktPerFlit, cfg.endBitsShift + k < 64 := by
      rw [parseCntl] at hparse
      obtain ⟨ss, -, hparse⟩ := Option.bind_eq_some_iff.1 hparse
      obtain ⟨es, hes, -⟩ := Option.bind_eq_some_iff.1 hparse
      intro k hk
      have hlt := lt_of_parse hes k hk
      rwa [Nat.zero_add] at hlt
    rw [parse_kept hc hv hbits fun _ _ => rfl] at hparse
    have hkept := Option.some.inj hparse
    have hstarts := keptPtrs_eq_iff.1 (congrArg CXSCntl.startPtrs hkept)
    have hends := keptPtrs_eq_iff.1 (congrArg CXSCntl.endPtrs hkept)
    refine ⟨fun k hk => ?_, fun k hk => ?_, hbits⟩
    · have hlt := place_isSome_iff.1 ⟨s, hs⟩ k hk
      rw [Nat.zero_add k] at hlt
      exact ⟨hlt.1, hlt.2, hstarts k hk⟩
    · have hlt := place_isSome_iff.1 ⟨e, he⟩ k hk
      rw [Nat.zero_add k] at hlt
      exact ⟨hlt.1, hlt.2, hends k hk⟩
  · intro h
    obtain ⟨v, hv⟩ := h.toUint64
    rw [hv, Option.bind_some]
    exact h.parse hc hv fun _ _ => rfl

/-- In a control word of no more than 32 bits, as that of the default arguments, all pointers fit. -/
theorem Valid.fits (hc : c.Valid cfg) (h : cfg.cntlWidth ≤ 32) : c.Fits cfg := by
  have hP : cfg.endPtrsShift = cfg.endBitsShift + cfg.maxPktPerFlit + cfg.maxPktPerFlit := rfl
  have hB : cfg.endBitsShift = cfg.maxPktPerFlit + cfg.maxPktPerFlit * cfg.startPtrWidth := rfl
  have hC : cfg.cntlWidth = 3 * cfg.maxPktPerFlit + cfg.maxPktPerFlit * cfg.startPtrWidth + cfg.maxPktPerFlit * cfg.endPtrWidth := rfl
  have hptr : ∀ {ptrs w k : ℕ} {p : BitVec 32}, 0 < w → k < cfg.maxPktPerFlit → ptrs + cfg.maxPktPerFlit * w ≤ 32 → p.toNat < 2 ^ w →
      ptrs + k * w < 32 ∧ p.toNat * 2 ^ (ptrs + k * w) < 2 ^ 32 := by
    intro ptrs w k p hw hk hend hp
    have hnext : k * w + w ≤ cfg.maxPktPerFlit * w := by
      rw [← Nat.succ_mul]
      exact Nat.mul_le_mul_right w hk
    refine ⟨by omega, ?_⟩
    calc p.toNat * 2 ^ (ptrs + k * w) < 2 ^ w * 2 ^ (ptrs + k * w) := Nat.mul_lt_mul_of_pos_right hp (Nat.two_pow_pos _)
      _ = 2 ^ (w + (ptrs + k * w)) := (Nat.pow_add ..).symm
      _ ≤ 2 ^ 32 := Nat.pow_le_pow_right (by decide) (by omega)
  have hpos : 0 < cfg.startPtrWidth ∧ 0 < cfg.endPtrWidth := by
    unfold Config.startPtrWidth Config.endPtrWidth
    rcases cfg.width with h | h | h <;> rw [h] <;> decide
  refine ⟨fun k hk => ?_, fun k hk => ?_, fun k hk => by omega⟩
  · have hN := hk.trans_le hc.starts
    exact ⟨by omega, hptr hpos.1 hN (by omega) (hc.startPtr _ (List.getElem_mem hk))⟩
  · have hN := hk.trans_le hc.ends
    exact ⟨by omega, hptr hpos.2 hN (by omega) (hc.endPtr _ (List.getElem_mem hk))⟩

end CXSCntl

end LibSystemCTLM.Ccix.Cxs
