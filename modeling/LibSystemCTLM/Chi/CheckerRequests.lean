import LibSystemCTLM.Chi.CheckerFlit

/-!
# The request checker, on atomics

`checker_requests` in `checker-chi.h` makes nine checks of each request, and reports what each of them finds wrong.

An atomic is illegal if it is too long (`AtomicCompare`: or shorter than two bytes), if its address is not aligned
(`AtomicCompare`: to the half of its size) or if it asserts `ExpCompAck`. The checker finds some such requests
legal and some others illegal; `reported_iff_illegal` says which.

* `AtomicStore` and `AtomicLoad` are cases of a switch, which names the first of their eight opcodes only.
* The size of the half is `1 << GetSize() / 2`, the root of the size.
* `AtomicCompare` is an atomic too, and the limit of the others is its own.

## Honest scope

A flit has three bits for the size, so that no shift is too far. The texts of the reports are left out: a report is
told by the check and the branch that it is of.
-/

namespace LibSystemCTLM.Chi

/-! ### `AMBA::CHI::Req` -/

namespace Req

abbrev reqLCrdReturn : BitVec 8 := 0x00
abbrev readShared : BitVec 8 := 0x01
abbrev readClean : BitVec 8 := 0x02
abbrev readOnce : BitVec 8 := 0x03
abbrev readNoSnp : BitVec 8 := 0x04
abbrev pCrdReturn : BitVec 8 := 0x05
abbrev readUnique : BitVec 8 := 0x07
abbrev cleanShared : BitVec 8 := 0x08
abbrev cleanInvalid : BitVec 8 := 0x09
abbrev makeInvalid : BitVec 8 := 0x0a
abbrev cleanUnique : BitVec 8 := 0x0b
abbrev makeUnique : BitVec 8 := 0x0c
abbrev evict : BitVec 8 := 0x0d
abbrev readNoSnpSep : BitVec 8 := 0x11
abbrev dvmOp : BitVec 8 := 0x14
abbrev writeEvictFull : BitVec 8 := 0x15
abbrev writeCleanFull : BitVec 8 := 0x17
abbrev writeUniquePtl : BitVec 8 := 0x18
abbrev writeUniqueFull : BitVec 8 := 0x19
abbrev writeBackPtl : BitVec 8 := 0x1a
abbrev writeBackFull : BitVec 8 := 0x1b
abbrev writeNoSnpPtl : BitVec 8 := 0x1c
abbrev writeNoSnpFull : BitVec 8 := 0x1d
abbrev writeUniqueFullStash : BitVec 8 := 0x20
abbrev writeUniquePtlStash : BitVec 8 := 0x21
abbrev stashOnceShared : BitVec 8 := 0x22
abbrev stashOnceUnique : BitVec 8 := 0x23
abbrev readOnceCleanInvalid : BitVec 8 := 0x24
abbrev readOnceMakeInvalid : BitVec 8 := 0x25
abbrev readNotSharedDirty : BitVec 8 := 0x26
abbrev cleanSharedPersist : BitVec 8 := 0x27
/-- To `0x2f`. -/
abbrev atomicStore : BitVec 8 := 0x28
/-- To `0x37`. -/
abbrev atomicLoad : BitVec 8 := 0x30
abbrev atomicSwap : BitVec 8 := 0x38
abbrev atomicCompare : BitVec 8 := 0x39
abbrev prefetchTgt : BitVec 8 := 0x3a

namespace Size

abbrev sz8 : BitVec 8 := 0x3
abbrev sz32 : BitVec 8 := 0x5
abbrev reserved : BitVec 8 := 0x7

end Size

end Req

/-- `DVM::DVMOpSize`. -/
abbrev dvmOpSize : BitVec 8 := 0x3

/-- What is reported of a request. -/
inductive ReqError where
  | opcode
  | expCompAck
  | snpAttr
  /-- `0b01`. -/
  | orderReserved
  | order
  | allowRetryPrefetchTgt
  | allowRetryPCrdType
  | allowRetryPCrdReturn
  | addressAtomicCompare
  | addressAtomic
  | sizeReserved
  | sizeAtomicCompare
  | sizeAtomic
  /-- With the fields that the report names. -/
  | dvmOp (fields : List String)
  | exclusive
  deriving DecidableEq

/-- `Align`. -/
def align (addr alignTo : ℕ) : ℕ := addr / alignTo * alignTo

namespace ReqFlit

variable (req : ReqFlit)

/-- `GetSize` returns a byte. -/
def getSize : BitVec 8 := req.size.setWidth 8

def isAtomicStore : Bool := decide (Req.atomicStore ≤ req.opcode ∧ req.opcode < Req.atomicLoad)

def isAtomicCompare : Bool := decide (req.opcode = Req.atomicCompare)

def isAtomic : Bool := decide (Req.atomicStore ≤ req.opcode ∧ req.opcode ≤ Req.atomicCompare)

def checkOpcode : List ReqError :=
  if req.opcode ∈ [Req.reqLCrdReturn, Req.readShared, Req.readClean, Req.readOnce, Req.readNoSnp, Req.pCrdReturn, Req.readUnique,
      Req.cleanShared, Req.cleanInvalid, Req.makeInvalid, Req.cleanUnique, Req.makeUnique, Req.evict, Req.dvmOp, Req.writeEvictFull,
      Req.writeCleanFull, Req.writeUniquePtl, Req.writeUniqueFull, Req.writeBackPtl, Req.writeBackFull, Req.writeNoSnpPtl,
      Req.writeNoSnpFull, Req.writeUniqueFullStash, Req.writeUniquePtlStash, Req.stashOnceShared, Req.stashOnceUnique,
      Req.readOnceCleanInvalid, Req.readOnceMakeInvalid, Req.readNotSharedDirty, Req.cleanSharedPersist, Req.prefetchTgt] ∨
    Req.atomicStore ≤ req.opcode ∧ req.opcode ≤ Req.atomicCompare then []
  else [.opcode]

/-- The opcodes that may not have `ExpCompAck`. -/
def expCompAckless : List (BitVec 8) :=
  [Req.cleanShared, Req.cleanSharedPersist, Req.cleanInvalid, Req.makeInvalid, Req.writeBackPtl, Req.writeBackFull, Req.writeCleanFull,
    Req.atomicStore, Req.atomicLoad, Req.atomicSwap, Req.atomicCompare, Req.stashOnceShared, Req.stashOnceUnique, Req.evict,
    Req.writeEvictFull, Req.writeNoSnpPtl, Req.writeNoSnpFull]

def checkExpCompAck : List ReqError :=
  if req.opcode ∈ [Req.readClean, Req.readNotSharedDirty, Req.readShared, Req.readUnique, Req.cleanUnique, Req.makeUnique] then
    if req.expCompAck = true then [] else [.expCompAck]
  else if req.opcode ∈ expCompAckless then
    if req.expCompAck = true then [.expCompAck] else []
  else []

def checkSnpAttr : List ReqError :=
  if req.opcode ∈ [Req.readOnce, Req.readOnceCleanInvalid, Req.readOnceMakeInvalid, Req.readClean, Req.readNotSharedDirty, Req.readShared,
      Req.readUnique, Req.cleanUnique, Req.makeUnique, Req.stashOnceShared, Req.stashOnceUnique, Req.writeBackPtl, Req.writeBackFull,
      Req.writeCleanFull, Req.writeEvictFull, Req.writeUniquePtl, Req.writeUniqueFull, Req.writeUniqueFullStash, Req.writeUniquePtlStash,
      Req.evict] then
    if req.snpAttr = true then [] else [.snpAttr]
  else if req.opcode ∈ [Req.writeNoSnpPtl, Req.writeNoSnpFull, Req.readNoSnp, Req.readNoSnpSep] then
    if req.snpAttr = true then [.snpAttr] else []
  else []

/-- The opcodes that an order may be asked for with. -/
def orderable : List (BitVec 8) :=
  [Req.readNoSnp, Req.readOnce, Req.readOnceCleanInvalid, Req.readOnceMakeInvalid, Req.writeUniquePtl, Req.writeUniqueFull, Req.atomicStore,
    Req.atomicLoad, Req.atomicSwap, Req.atomicCompare]

def checkOrder : List ReqError :=
  (if req.order = 1 then [.orderReserved] else []) ++ if req.order ≠ 0 ∧ req.opcode ∉ orderable then [.order] else []

def checkAllowRetry : List ReqError :=
  if req.allowRetry = true then
    (if req.opcode = Req.prefetchTgt then [.allowRetryPrefetchTgt] else []) ++ (if req.pCrdType ≠ 0 then [.allowRetryPCrdType] else []) ++
      if req.opcode = Req.pCrdReturn then [.allowRetryPCrdReturn] else []
  else []

def checkAddress : List ReqError :=
  if req.isAtomicCompare = true then
    -- the division comes before the shift
    if align req.address.toNat (1 <<< (req.getSize.toNat / 2)) ≠ req.address.toNat then [.addressAtomicCompare] else []
  else if req.isAtomic = true then
    if align req.address.toNat (1 <<< req.getSize.toNat) ≠ req.address.toNat then [.addressAtomic] else []
  else []

def checkSize : List ReqError :=
  (if req.getSize = Req.Size.reserved then [.sizeReserved] else []) ++
    (if req.isAtomicCompare = true ∧ req.getSize > Req.Size.sz32 then [.sizeAtomicCompare] else []) ++
    if req.isAtomic = true ∧ req.getSize > Req.Size.sz8 then [.sizeAtomic] else []

/-- The fields that a `DVMOp` may not have. The second test of `ReturnTxnID` is of the source. -/
def dvmFields : List String :=
  (if req.returnNID_StashNID ≠ 0 then ["ReturnNID"] else []) ++ (if req.stashNIDValid_Endian = true then [", StashNIDValid"] else []) ++
    (if req.returnTxnID ≠ 0 then [", StashNIDValid"] else []) ++ (if req.returnTxnID ≠ 0 then [", StashNIDValid"] else []) ++
    (if req.getSize > dvmOpSize then [", Size"] else []) ++ (if req.nonSecure = true then [", NonSecure"] else []) ++
    (if req.likelyShared = true then [", LikelyShared"] else []) ++ (if req.order ≠ 0 then [", Order"] else []) ++
    (if (req.allocate || req.cacheable || req.deviceMemory || req.earlyWrAck) = true then [", MemAttr"] else []) ++
    (if req.snpAttr = true then [", SnpAttr"] else []) ++ if req.excl_SnoopMe = true then [", Excl"] else []

def checkDVM : List ReqError := if req.opcode = Req.dvmOp ∧ req.dvmFields ≠ [] then [.dvmOp req.dvmFields] else []

def checkExcl : List ReqError :=
  if req.excl_SnoopMe = true ∧
      req.opcode ∉ [Req.readClean, Req.readNotSharedDirty, Req.readShared, Req.cleanUnique, Req.writeNoSnpPtl, Req.writeNoSnpFull,
        Req.readNoSnp] ∧ req.isAtomic = false then [.exclusive]
  else []

/-- `CheckRequest`. -/
def checkRequest : List ReqError :=
  req.checkOpcode ++ req.checkExpCompAck ++ req.checkSnpAttr ++ req.checkOrder ++ req.checkAllowRetry ++ req.checkAddress ++
    req.checkSize ++ req.checkDVM ++ req.checkExcl

/-! ### What is to be found -/

/-- The size in bytes. -/
def bytes : ℕ := 2 ^ req.getSize.toNat

/-- An illegal atomic. -/
def Illegal : Prop :=
  if req.isAtomicCompare = true then
    req.bytes < 2 ∨ 32 < req.bytes ∨ ¬req.bytes / 2 ∣ req.address.toNat ∨ req.expCompAck = true
  else 8 < req.bytes ∨ ¬req.bytes ∣ req.address.toNat ∨ req.expCompAck = true

/-- The opcodes that the switches name. -/
def named : List (BitVec 8) := [Req.atomicStore, Req.atomicLoad, Req.atomicSwap, Req.atomicCompare]

/-- An error that is neither of the size nor of the address nor of `ExpCompAck`. -/
def OtherError : Prop :=
  req.order = 1 ∨ req.order ≠ 0 ∧ req.opcode ∉ named ∨ req.allowRetry = true ∧ req.pCrdType ≠ 0

/-- An illegal atomic that is found legal. -/
def Missed : Prop :=
  ¬req.OtherError ∧
    if req.isAtomicCompare = true then
      req.expCompAck = false ∧ (req.bytes = 1 ∨ req.bytes = 8 ∧ req.address.toNat % 4 = 2)
    else req.expCompAck = true ∧ req.opcode ∉ named ∧ req.bytes ≤ 8 ∧ req.bytes ∣ req.address.toNat

/-- A legal atomic that is found illegal. -/
def Spurious : Prop := ¬req.Illegal ∧ (req.OtherError ∨ req.isAtomicCompare = true ∧ (req.bytes = 16 ∨ req.bytes = 32))

instance : Decidable req.Illegal := inferInstanceAs (Decidable (if req.isAtomicCompare = true then _ else _))

instance : Decidable req.OtherError := inferInstanceAs (Decidable (_ ∨ _))

instance : Decidable req.Missed := inferInstanceAs (Decidable (_ ∧ if req.isAtomicCompare = true then _ else _))

instance : Decidable req.Spurious := inferInstanceAs (Decidable (_ ∧ _))

/-! ### The checks of an atomic -/

variable {req}

theorem mem_iff_of_isAtomic (h : req.isAtomic = true) (l : List (BitVec 8)) :
    req.opcode ∈ l ↔ req.opcode ∈ l.filter fun o => decide (Req.atomicStore ≤ o ∧ o ≤ Req.atomicCompare) := by
  rw [List.mem_filter]
  exact (and_iff_left h).symm

/-- Lists of other opcodes, which are told by evaluating them. -/
theorem not_mem_of_isAtomic (h : req.isAtomic = true) {l : List (BitVec 8)}
    (hl : (l.all fun o => Nat.blt o.toNat 0x28 || Nat.blt 0x39 o.toNat) = true) : req.opcode ∉ l := by
  intro hmem
  obtain ⟨hlo, hhi⟩ : Req.atomicStore ≤ req.opcode ∧ req.opcode ≤ Req.atomicCompare := of_decide_eq_true h
  have hlo' : 0x28 ≤ req.opcode.toNat := BitVec.le_def.1 hlo
  have hhi' : req.opcode.toNat ≤ 0x39 := BitVec.le_def.1 hhi
  have hout := List.all_eq_true.1 hl _ hmem
  simp only [Bool.or_eq_true, Nat.blt_eq] at hout
  omega

theorem checkOpcode_of_isAtomic (h : req.isAtomic = true) : req.checkOpcode = [] := if_pos (.inr (of_decide_eq_true h))

theorem checkExpCompAck_of_isAtomic (h : req.isAtomic = true) :
    req.checkExpCompAck = if req.expCompAck = true ∧ req.opcode ∈ named then [.expCompAck] else [] := by
  have hmem : req.opcode ∈ expCompAckless ↔ req.opcode ∈ named := mem_iff_of_isAtomic h expCompAckless
  unfold checkExpCompAck
  rw [if_neg (not_mem_of_isAtomic h rfl)]
  by_cases hn : req.opcode ∈ named
  · rw [if_pos (hmem.2 hn)]
    simp only [hn, and_true]
  · rw [if_neg fun hc => hn (hmem.1 hc), if_neg fun hc => hn hc.2]

theorem checkSnpAttr_of_isAtomic (h : req.isAtomic = true) : req.checkSnpAttr = [] := by
  unfold checkSnpAttr
  rw [if_neg (not_mem_of_isAtomic h rfl), if_neg (not_mem_of_isAtomic h rfl)]

theorem mem_orderable_iff (h : req.isAtomic = true) : req.opcode ∈ orderable ↔ req.opcode ∈ named := mem_iff_of_isAtomic h orderable

theorem opcode_ne_of_isAtomic (h : req.isAtomic = true) {o : BitVec 8} (ho : ¬(Req.atomicStore ≤ o ∧ o ≤ Req.atomicCompare)) :
    req.opcode ≠ o := fun heq => ho (heq ▸ of_decide_eq_true h)

theorem report_ne_nil_iff {c : Prop} [Decidable c] (e : ReqError) : (if c then [e] else []) ≠ [] ↔ c := by
  split <;> simp [*]

theorem append_ne_nil_iff (l l' : List ReqError) : l ++ l' ≠ [] ↔ l ≠ [] ∨ l' ≠ [] := by
  rw [ne_eq, List.append_eq_nil_iff, not_and_or]

/-- The order and the credit type are all that there is besides. -/
theorem otherError_iff (h : req.isAtomic = true) : req.checkOrder ++ req.checkAllowRetry ≠ [] ↔ req.OtherError := by
  unfold checkOrder checkAllowRetry OtherError
  rw [if_neg (opcode_ne_of_isAtomic h (by decide)), if_neg (opcode_ne_of_isAtomic h (by decide))]
  simp only [List.nil_append, List.append_nil, ← ite_and, append_ne_nil_iff, report_ne_nil_iff, mem_orderable_iff h, or_assoc]

theorem align_eq_iff (addr alignTo : ℕ) : align addr alignTo = addr ↔ alignTo ∣ addr := (Nat.dvd_iff_div_mul_eq addr alignTo).symm

theorem addressError_iff (h : req.isAtomic = true) :
    req.checkAddress ≠ [] ↔ ¬(if req.isAtomicCompare = true then 2 ^ (req.getSize.toNat / 2) else req.bytes) ∣ req.address.toNat := by
  unfold checkAddress bytes
  simp only [ne_eq, align_eq_iff, Nat.one_shiftLeft, h, if_true]
  split
  · simp
  · simp

theorem sizeError_iff (h : req.isAtomic = true) : req.checkSize ≠ [] ↔ 3 < req.getSize.toNat := by
  have h7 : req.getSize = Req.Size.reserved → 3 < req.getSize.toNat := fun heq => by rw [heq]; decide
  have h5 : req.getSize > Req.Size.sz32 → 3 < req.getSize.toNat := fun hgt => Nat.lt_trans (by decide) (BitVec.lt_def.1 hgt)
  unfold checkSize
  simp only [append_ne_nil_iff, report_ne_nil_iff, h, true_and]
  constructor
  · rintro ((hc | ⟨-, hc⟩) | hc)
    · exact h7 hc
    · exact h5 hc
    · exact BitVec.lt_def.1 hc
  · intro hlt
    exact .inr (BitVec.lt_def.2 hlt)

theorem reported_iff (h : req.isAtomic = true) :
    req.checkRequest ≠ [] ↔
      (req.expCompAck = true ∧ req.opcode ∈ named) ∨ req.OtherError ∨
        (¬(if req.isAtomicCompare = true then 2 ^ (req.getSize.toNat / 2) else req.bytes) ∣ req.address.toNat) ∨
          3 < req.getSize.toNat := by
  have hdvm : req.checkDVM = [] := if_neg fun hc => opcode_ne_of_isAtomic h (by decide) hc.1
  have hexcl : req.checkExcl = [] := if_neg fun hc => by simp [h] at hc
  rw [← otherError_iff h, ← addressError_iff h, ← sizeError_iff h]
  unfold checkRequest
  rw [checkOpcode_of_isAtomic h, checkSnpAttr_of_isAtomic h, checkExpCompAck_of_isAtomic h, hdvm, hexcl]
  simp only [List.nil_append, List.append_nil, append_ne_nil_iff, report_ne_nil_iff, or_assoc]

/-! ### When it is right -/

theorem lt_bytes_iff (k : ℕ) : 2 ^ k < req.bytes ↔ k < req.getSize.toNat := Nat.pow_lt_pow_iff_right (by decide)

theorem bytes_eq_iff (k : ℕ) : req.bytes = 2 ^ k ↔ req.getSize.toNat = k := Nat.pow_right_inj (by decide)

/-- What is illegal of an `AtomicCompare`, by the exponent of its size. -/
theorem illegal_compare_iff (hc : req.isAtomicCompare = true) :
    req.Illegal ↔ req.getSize.toNat = 0 ∨ 5 < req.getSize.toNat ∨ ¬2 ^ (req.getSize.toNat - 1) ∣ req.address.toNat ∨ req.expCompAck = true := by
  have h32 : 32 < req.bytes ↔ 5 < req.getSize.toNat := lt_bytes_iff 5
  unfold Illegal
  rw [if_pos hc, h32]
  cases hs : req.getSize.toNat with
  | zero => simp [bytes, hs]
  | succ k =>
    have hlt : ¬2 ^ k * 2 < 2 := by
      have := Nat.one_le_two_pow (n := k)
      omega
    simp [bytes, hs, pow_succ, hlt]

/-- The two alignments, for the sizes that pass. -/
theorem dvd_half_iff {s a : ℕ} (h0 : s ≠ 0) (h3 : s ≤ 3) : 2 ^ (s - 1) ∣ a ↔ 2 ^ (s / 2) ∣ a ∧ ¬(s = 3 ∧ a % 4 = 2) := by
  obtain rfl | rfl | rfl : s = 1 ∨ s = 2 ∨ s = 3 := by omega
  · simp
  · simp
  · change 4 ∣ a ↔ 2 ∣ a ∧ ¬(3 = 3 ∧ a % 4 = 2)
    omega

/-- `AtomicCompare`. -/
theorem compare_iff (h : req.isAtomic = true) (hc : req.isAtomicCompare = true) :
    (req.checkRequest ≠ [] ↔ req.Illegal) ↔ ¬req.Missed ∧ ¬req.Spurious := by
  have hn : req.opcode ∈ named := by rw [of_decide_eq_true hc]; decide
  have h1 : req.bytes = 1 ↔ req.getSize.toNat = 0 := bytes_eq_iff 0
  have h8 : req.bytes = 8 ↔ req.getSize.toNat = 3 := bytes_eq_iff 3
  have h16 : req.bytes = 16 ↔ req.getSize.toNat = 4 := bytes_eq_iff 4
  have h32 : req.bytes = 32 ↔ req.getSize.toNat = 5 := bytes_eq_iff 5
  unfold Missed Spurious
  rw [reported_iff h, illegal_compare_iff hc, h1, h8, h16, h32]
  simp only [hc, if_true, hn, and_true, true_and]
  generalize req.getSize.toNat = s
  obtain h0 | h0 | h0 | h0 : s = 0 ∨ (s ≠ 0 ∧ s ≤ 3) ∨ (s = 4 ∨ s = 5) ∨ 5 < s := by omega
  · subst h0
    cases req.expCompAck <;> simp
  · have hs : s ≠ 4 ∧ s ≠ 5 ∧ ¬5 < s ∧ ¬3 < s := by omega
    have hdvd : s = 3 ∧ req.address.toNat % 4 = 2 → 2 ^ (s / 2) ∣ req.address.toNat := by
      rintro ⟨rfl, h2⟩
      change 2 ∣ req.address.toNat
      omega
    rw [dvd_half_iff h0.1 h0.2]
    simp only [h0, hs, false_or, or_false]
    generalize (2 ^ (s / 2) ∣ req.address.toNat) = aligned at hdvd ⊢
    generalize (s = 3 ∧ req.address.toNat % 4 = 2) = half at hdvd ⊢
    cases req.expCompAck with
    | true => simp
    | false =>
      by_cases ho : req.OtherError
      · simp [ho]
      · by_cases hm : half
        · simp [ho, hm, hdvd hm]
        · simp [ho, hm]
  · have hs : s ≠ 0 ∧ s ≠ 3 ∧ ¬5 < s ∧ 3 < s := by omega
    simp only [hs, h0, false_or, false_and, and_false, or_true, not_false_eq_true, and_true, true_and, true_iff, not_not]
  · have hs : s ≠ 0 ∧ s ≠ 3 ∧ 3 < s := by omega
    simp [hs, h0]

theorem other_iff (h : req.isAtomic = true) (hc : req.isAtomicCompare = false) :
    (req.checkRequest ≠ [] ↔ req.Illegal) ↔ ¬req.Missed ∧ ¬req.Spurious := by
  have hlt : 8 < req.bytes ↔ 3 < req.getSize.toNat := lt_bytes_iff 3
  unfold Missed Spurious Illegal
  rw [reported_iff h]
  simp only [hc, Bool.false_eq_true, if_false, ← hlt, ← not_lt, false_and, or_false]
  by_cases hsize : 8 < req.bytes
  · simp [hsize]
  · by_cases hdvd : req.bytes ∣ req.address.toNat
    · cases req.expCompAck with
      | false => simp [hsize, hdvd]
      | true => by_cases ho : req.OtherError <;> simp [hsize, hdvd, ho]
    · simp [hdvd]

/-- **An atomic is reported exactly if it is illegal, but for the kinds of `Missed` and `Spurious`.** -/
theorem reported_iff_illegal_iff (h : req.isAtomic = true) : (req.checkRequest ≠ [] ↔ req.Illegal) ↔ ¬req.Missed ∧ ¬req.Spurious := by
  cases hc : req.isAtomicCompare with
  | true => exact compare_iff h hc
  | false => exact other_iff h hc

/-- What `AtomicTxn` makes of a request in which the caller asks for no order. -/
structure Issued (req : ReqFlit) : Prop where
  isAtomic : req.isAtomic = true
  expCompAck : req.expCompAck = false
  /-- The credit type comes with the second attempt, which does not allow another one. -/
  pCrdType : req.allowRetry = true → req.pCrdType = 0
  order : req.order = 0

/-- The legal atomics of the cache that are accepted. -/
theorem Issued.accepted_iff (hi : Issued req) (hl : ¬req.Illegal) :
    req.checkRequest = [] ↔ ¬(req.isAtomicCompare = true ∧ (req.bytes = 16 ∨ req.bytes = 32)) := by
  have hother : ¬req.OtherError := by
    rintro (h1 | ⟨h0, -⟩ | ⟨hr, hc⟩)
    · rw [hi.order] at h1
      cases h1
    · exact h0 hi.order
    · exact hc (hi.pCrdType hr)
  have hrep := reported_iff hi.isAtomic
  simp only [hi.expCompAck, Bool.false_eq_true, false_and, hother, false_or] at hrep
  rw [← not_iff_not, not_not, ← ne_eq, hrep]
  cases hc : req.isAtomicCompare with
  | false =>
    have h8 : 8 < req.bytes ↔ 3 < req.getSize.toNat := lt_bytes_iff 3
    unfold Illegal at hl
    rw [hc, if_neg Bool.false_ne_true, h8] at hl
    simp only [not_or, not_not] at hl
    simp [hl.1, hl.2.1]
  | true =>
    have h16 : req.bytes = 16 ↔ req.getSize.toNat = 4 := bytes_eq_iff 4
    have h32 : req.bytes = 32 ↔ req.getSize.toNat = 5 := bytes_eq_iff 5
    rw [illegal_compare_iff hc] at hl
    simp only [not_or, not_not] at hl
    obtain ⟨h0, h5, hdvd, -⟩ := hl
    simp only [if_true, true_and, h16, h32]
    by_cases h3 : req.getSize.toNat ≤ 3
    · have hroot := ((dvd_half_iff h0 h3).1 hdvd).1
      simp only [hroot, not_true_eq_false, false_or]
      omega
    · constructor
      · intro _
        omega
      · intro _
        exact .inr (by omega)

/-- A request as `AtomicTxn` issues it, with the fields that the checks of an atomic are about. -/
def request (opcode : BitVec 8) (size : BitVec 32) (address : BitVec 64) (expCompAck : Bool) : ReqFlit :=
  { qoS := 0, tgtID := 0, srcID := 0, txnID := 0, returnNID_StashNID := 0, stashNIDValid_Endian := false, returnTxnID := 0, nonSecure := false
    likelyShared := false, allowRetry := true, order := 0, pCrdType := 0, allocate := false, cacheable := false, deviceMemory := false
    earlyWrAck := false, snpAttr := true, lpid := 0, excl_SnoopMe := false, traceTag := false, rsvdc := 0
    opcode, size, address, expCompAck }

/-- A swap of eight bytes. -/
theorem request_swap_reported_iff :
    ((request Req.atomicSwap 3 0x1008 false).checkRequest ≠ [] ↔ (request Req.atomicSwap 3 0x1008 false).Illegal) :=
  (reported_iff_illegal_iff (by decide)).2 (by decide)

/-- Accepted are the second of the stores with `ExpCompAck`, a comparison of one byte and one of four bytes at an address that is not
aligned to four; reported is one of eight bytes. -/
theorem request_not_reported_iff :
    ((request (Req.atomicStore + 1) 3 0x1000 true).checkRequest = [] ∧ (request (Req.atomicStore + 1) 3 0x1000 true).Illegal) ∧
      ((request Req.atomicCompare 0 0x1000 false).checkRequest = [] ∧ (request Req.atomicCompare 0 0x1000 false).Illegal) ∧
        ((request Req.atomicCompare 3 0x1002 false).checkRequest = [] ∧ (request Req.atomicCompare 3 0x1002 false).Illegal) ∧
          (request Req.atomicCompare 4 0x1000 false).checkRequest = [.sizeAtomic] ∧ ¬(request Req.atomicCompare 4 0x1000 false).Illegal := by
  decide

end ReqFlit

end LibSystemCTLM.Chi
