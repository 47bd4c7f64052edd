import LibSystemCTLM.Ccix.Msg

/-!
# CHI requests as CCIX requests

A `CCIXPort` sends a CHI request under a CCIX opcode (`toReqOp`, `toWriteReqOp`, `toAtomicReqOp`),
and the port at the other end makes a CHI request of it (`toCHI`). The classes of opcodes are those of
`iconnect_chi`'s `ReqTxn` and of `CCIXReq`. The request that comes out has the opcode of the one that
went in (`toCHI_of_outgoing`).
-/

namespace LibSystemCTLM.Ccix

/-! ### `AMBA::CHI::Req` -/

namespace Chi

def readShared : BitVec 8 := 0x01
def readClean : BitVec 8 := 0x02
def readOnce : BitVec 8 := 0x03
def readNoSnp : BitVec 8 := 0x04
def readUnique : BitVec 8 := 0x07
def cleanShared : BitVec 8 := 0x08
def cleanInvalid : BitVec 8 := 0x09
def makeInvalid : BitVec 8 := 0x0A
def cleanUnique : BitVec 8 := 0x0B
def makeUnique : BitVec 8 := 0x0C
def evict : BitVec 8 := 0x0D
def writeEvictFull : BitVec 8 := 0x15
def writeCleanFull : BitVec 8 := 0x17
def writeUniquePtl : BitVec 8 := 0x18
def writeUniqueFull : BitVec 8 := 0x19
def writeBackPtl : BitVec 8 := 0x1A
def writeBackFull : BitVec 8 := 0x1B
def writeNoSnpPtl : BitVec 8 := 0x1C
def writeNoSnpFull : BitVec 8 := 0x1D
def writeUniqueFullStash : BitVec 8 := 0x20
def writeUniquePtlStash : BitVec 8 := 0x21
def stashOnceShared : BitVec 8 := 0x22
def stashOnceUnique : BitVec 8 := 0x23
def readOnceCleanInvalid : BitVec 8 := 0x24
def readOnceMakeInvalid : BitVec 8 := 0x25
def readNotSharedDirty : BitVec 8 := 0x26
def cleanSharedPersist : BitVec 8 := 0x27
def atomicStore : BitVec 8 := 0x28
def atomicLoad : BitVec 8 := 0x30
def atomicSwap : BitVec 8 := 0x38
def atomicCompare : BitVec 8 := 0x39

/-! `AMBA::CHI::Resp` of the data of a copy back. -/

def copyBackWrDataSDPD : BitVec 8 := 0x7
def copyBackWrDataUDPD : BitVec 8 := 0x6

end Chi

namespace Msg

def readOnce : BitVec 8 := 0x01
def readOnceCleanInvalid : BitVec 8 := 0x02
def readOnceMakeInvalid : BitVec 8 := 0x03
def readUnique : BitVec 8 := 0x04
def readClean : BitVec 8 := 0x05
def readNotSharedDirty : BitVec 8 := 0x06
def readShared : BitVec 8 := 0x07
def cleanUnique : BitVec 8 := 0x10
def makeUnique : BitVec 8 := 0x11
def evict : BitVec 8 := 0x13
def cleanShared : BitVec 8 := 0x14
def cleanSharedPersist : BitVec 8 := 0x15
def cleanInvalid : BitVec 8 := 0x16
def makeInvalid : BitVec 8 := 0x17
def atomicLoad : BitVec 8 := 0x50
def atomicSwap : BitVec 8 := 0x60
def atomicCompare : BitVec 8 := 0x61
def atomicStoreSnpMe : BitVec 8 := 0xC0
def atomicLoadSnpMe : BitVec 8 := 0xD0
def atomicSwapSnpMe : BitVec 8 := 0xE0

end Msg

/-! ### The classes of `ReqTxn` -/

section Classes

variable (op : BitVec 8)

/-- `IsSnpRead`, which `CCIXReq` has as `IsFullyCoherentRead`. -/
def isSnpRead : Bool :=
  decide (op ∈ [Chi.readOnce, Chi.readOnceCleanInvalid, Chi.readOnceMakeInvalid, Chi.readClean, Chi.readNotSharedDirty, Chi.readShared,
    Chi.readUnique])

/-- `IsRead`. -/
def isRead : Bool := decide (op = Chi.readNoSnp) || isSnpRead op

/-- `IsDataLess`. -/
def isDataLess : Bool :=
  decide (op ∈ [Chi.cleanUnique, Chi.makeUnique, Chi.evict, Chi.cleanShared, Chi.cleanSharedPersist, Chi.cleanInvalid, Chi.makeInvalid,
    Chi.stashOnceUnique, Chi.stashOnceShared])

/-- `IsDataLessWithCompAck`. -/
def isDataLessWithCompAck : Bool := decide (op = Chi.cleanUnique) || decide (op = Chi.makeUnique)

/-- `IsWriteUnique`. -/
def isWriteUnique : Bool :=
  decide (op ∈ [Chi.writeUniquePtl, Chi.writeUniqueFull, Chi.writeUniqueFullStash, Chi.writeUniquePtlStash])

/-- `IsWrite`. -/
def isWrite : Bool :=
  decide (op ∈ [Chi.writeEvictFull, Chi.writeCleanFull, Chi.writeUniquePtl, Chi.writeUniqueFull, Chi.writeBackFull, Chi.writeBackPtl,
    Chi.writeNoSnpPtl, Chi.writeNoSnpFull, Chi.writeUniqueFullStash, Chi.writeUniquePtlStash])

/-- `IsAtomicStore`. -/
def isAtomicStore : Bool := decide (Chi.atomicStore ≤ op) && decide (op < Chi.atomicLoad)

/-- `IsAtomicLoad`. -/
def isAtomicLoad : Bool := decide (Chi.atomicLoad ≤ op) && decide (op < Chi.atomicSwap)

/-- `IsAtomic`. -/
def isAtomic : Bool := decide (Chi.atomicStore ≤ op) && decide (op ≤ Chi.atomicCompare)

end Classes

/-! ### The opcodes of an outgoing request -/

/-- The opcodes that are the same on both sides: reads, requests without data, and the writes that do not
depend on the response. -/
def readOps : List (BitVec 8 × BitVec 8) :=
  [(Chi.readNoSnp, Msg.readNoSnp), (Chi.readOnce, Msg.readOnce), (Chi.readOnceCleanInvalid, Msg.readOnceCleanInvalid),
    (Chi.readOnceMakeInvalid, Msg.readOnceMakeInvalid), (Chi.readClean, Msg.readClean), (Chi.readNotSharedDirty, Msg.readNotSharedDirty),
    (Chi.readShared, Msg.readShared), (Chi.readUnique, Msg.readUnique)]

def dataLessOps : List (BitVec 8 × BitVec 8) :=
  [(Chi.evict, Msg.evict), (Chi.cleanShared, Msg.cleanShared), (Chi.cleanSharedPersist, Msg.cleanSharedPersist),
    (Chi.cleanInvalid, Msg.cleanInvalid), (Chi.makeInvalid, Msg.makeInvalid), (Chi.cleanUnique, Msg.cleanUnique),
    (Chi.makeUnique, Msg.makeUnique)]

def writeOps : List (BitVec 8 × BitVec 8) :=
  [(Chi.writeNoSnpPtl, Msg.writeNoSnpPtl), (Chi.writeNoSnpFull, Msg.writeNoSnpFull), (Chi.writeUniquePtl, Msg.writeUniquePtl),
    (Chi.writeUniqueFull, Msg.writeUniqueFull), (Chi.writeEvictFull, Msg.writeEvictFull), (Chi.writeBackPtl, Msg.writeBackPtl)]

/-- `toReqOp`. Another opcode is reported as an error. -/
def toReqOp (op : BitVec 8) : Option (BitVec 8) := (readOps ++ dataLessOps).lookup op

/-- `toWriteReqOp`, with the `Resp` of the data. -/
def toWriteReqOp (op resp : BitVec 8) : Option (BitVec 8) :=
  if op = Chi.writeBackFull then
    if resp = Chi.copyBackWrDataSDPD then some Msg.writeBackFullSD
    else if resp = Chi.copyBackWrDataUDPD then some Msg.writeBackFullUD
    else none
  else if op = Chi.writeCleanFull then
    if resp = Chi.copyBackWrDataSDPD ∨ resp = Chi.copyBackWrDataUDPD then some Msg.writeCleanFullSD else none
  else writeOps.lookup op

/-- `toAtomicReqOp`. -/
def toAtomicReqOp (op : BitVec 8) (snoopMe : Bool) : Option (BitVec 8) :=
  let subop := op &&& 0x7
  if isAtomicStore op = true then some ((if snoopMe = true then Msg.atomicStoreSnpMe else Msg.atomicStore) ||| subop)
  else if isAtomicLoad op = true then some ((if snoopMe = true then Msg.atomicLoadSnpMe else Msg.atomicLoad) ||| subop)
  else if op = Chi.atomicSwap then some (if snoopMe = true then Msg.atomicSwapSnpMe else Msg.atomicSwap)
  else if op = Chi.atomicCompare then some (if snoopMe = true then Msg.atomicCompareSnpMe else Msg.atomicCompare)
  else none

/-- The CCIX opcode of a request that a port sends: for a write or an atomic, when its data has come. -/
def outgoingOp (op resp : BitVec 8) (snoopMe : Bool) : Option (BitVec 8) :=
  if isRead op = true ∨ isDataLess op = true then toReqOp op
  else if isAtomic op = true then toAtomicReqOp op snoopMe
  else if isWrite op = true then toWriteReqOp op resp
  else none

/-! ### The opcodes of an incoming request -/

section Incoming

variable (op : BitVec 8)

/-- `IsCCIXAtomic`. -/
def isCCIXAtomic : Bool := decide (Msg.atomicStore ≤ op) && decide (op ≤ Msg.atomicCompareSnpMe)

/-- `IsCCIXAtomicSnpMe`. -/
def isCCIXAtomicSnpMe : Bool := decide (Msg.atomicStoreSnpMe ≤ op) && decide (op ≤ Msg.atomicCompareSnpMe)

/-- `IsCCIXAtomicStore`. -/
def isCCIXAtomicStore : Bool :=
  (decide (Msg.atomicStore ≤ op) && decide (op < Msg.atomicLoad)) || (decide (Msg.atomicStoreSnpMe ≤ op) && decide (op < Msg.atomicLoadSnpMe))

/-- `IsCCIXAtomicLoad`. -/
def isCCIXAtomicLoad : Bool :=
  (decide (Msg.atomicLoad ≤ op) && decide (op < Msg.atomicSwap)) || (decide (Msg.atomicLoadSnpMe ≤ op) && decide (op < Msg.atomicSwapSnpMe))

/-- `IsCCIXAtomicSwap`. -/
def isCCIXAtomicSwap : Bool := decide (op = Msg.atomicSwap) || decide (op = Msg.atomicSwapSnpMe)

/-- `IsCCIXAtomicCompare`. -/
def isCCIXAtomicCompare : Bool := decide (op = Msg.atomicCompare) || decide (op = Msg.atomicCompareSnpMe)

/-- `IsAtomicNonStore` of `CCIXReq`. -/
def isAtomicNonStore : Bool :=
  (decide (Msg.atomicLoad ≤ op) && decide (op ≤ Msg.atomicCompare)) ||
    (decide (Msg.atomicLoadSnpMe ≤ op) && decide (op ≤ Msg.atomicCompareSnpMe))

/-- `toCHIAtomic`. -/
def toCHIAtomic : Option (BitVec 8) :=
  let subop := op &&& 0x7
  if isCCIXAtomicStore op = true then some (Chi.atomicStore ||| subop)
  else if isCCIXAtomicLoad op = true then some (Chi.atomicLoad ||| subop)
  else if isCCIXAtomicSwap op = true then some Chi.atomicSwap
  else if isCCIXAtomicCompare op = true then some Chi.atomicCompare
  else none

/-- The cases of `toCHI` before the atomics. -/
def chiOps : List (BitVec 8 × BitVec 8) :=
  (readOps ++ dataLessOps ++ writeOps).map Prod.swap ++
    [(Msg.writeBackFullUD, Chi.writeBackFull), (Msg.writeBackFullSD, Chi.writeBackFull), (Msg.writeCleanFullSD, Chi.writeCleanFull)]

/-- `toCHI`. -/
def toCHI : Option (BitVec 8) :=
  match chiOps.lookup op with
  | some chiOp => some chiOp
  | none => if isCCIXAtomic op = true then toCHIAtomic op else none

end Incoming

theorem toCHI_of_readOps {p : BitVec 8 × BitVec 8} (h : p ∈ readOps ++ dataLessOps ++ writeOps) : toCHI p.2 = some p.1 := by
  have hall : ((readOps ++ dataLessOps ++ writeOps).all fun p => toCHI p.2 == some p.1) = true := by decide
  exact beq_iff_eq.1 (List.all_eq_true.1 hall p h)

theorem mem_of_lookup {l : List (BitVec 8 × BitVec 8)} {a b : BitVec 8} (h : l.lookup a = some b) : (a, b) ∈ l := by
  obtain ⟨l₁, l₂, rfl, -⟩ := List.lookup_eq_some_iff.1 h
  exact List.mem_append_right _ List.mem_cons_self

/-- The opcodes of the stores, or of the loads: eight from the first one on, which the low bits tell apart. -/
theorem exists_subop {op : BitVec 8} (first : ℕ) (hlo : first ≤ op.toNat) (hhi : op.toNat < first + 8) (hfirst : 2 ^ 3 ∣ first) (h8 : first < 256) :
    ∃ y : BitVec 3, op = BitVec.ofNat 8 first ||| y.setWidth 8 := by
  obtain ⟨k, hk⟩ := Nat.exists_eq_add_of_le hlo
  refine ⟨BitVec.ofNat 3 k, BitVec.eq_of_toNat_eq ?_⟩
  have hk8 : k < 2 ^ 3 := by omega
  have hor : first ||| k = first + k := by
    obtain ⟨q, rfl⟩ := hfirst
    exact (Nat.two_pow_add_eq_or_of_lt hk8 q).symm
  rw [BitVec.toNat_or, BitVec.toNat_setWidth, BitVec.toNat_ofNat, BitVec.toNat_ofNat, Nat.mod_eq_of_lt h8, Nat.mod_eq_of_lt hk8,
    Nat.mod_eq_of_lt (by omega : k < 2 ^ 8), hor, hk]

/-- The atomics and their opcodes: both keep the operation in the low bits. -/
theorem toCHI_of_atomic {op ccixOp : BitVec 8} {snoopMe : Bool} (h : toAtomicReqOp op snoopMe = some ccixOp) : toCHI ccixOp = some op := by
  have hstore : ∀ (y : BitVec 3) (snoopMe : Bool),
      (toAtomicReqOp (Chi.atomicStore ||| y.setWidth 8) snoopMe).all (fun c => toCHI c == some (Chi.atomicStore ||| y.setWidth 8)) = true := by
    decide +kernel
  have hload : ∀ (y : BitVec 3) (snoopMe : Bool),
      (toAtomicReqOp (Chi.atomicLoad ||| y.setWidth 8) snoopMe).all (fun c => toCHI c == some (Chi.atomicLoad ||| y.setWidth 8)) = true := by
    decide +kernel
  have hop : (toAtomicReqOp op snoopMe).all (fun c => toCHI c == some op) = true := by
    by_cases h0 : isAtomicStore op = true
    · obtain ⟨hlo, hhi⟩ : 0x28 ≤ op.toNat ∧ op.toNat < 0x30 := by
        simpa [isAtomicStore, Chi.atomicStore, Chi.atomicLoad, BitVec.le_def, BitVec.lt_def] using h0
      obtain ⟨y, rfl⟩ := exists_subop 0x28 hlo hhi (by decide) (by decide)
      exact hstore y snoopMe
    · by_cases h1 : isAtomicLoad op = true
      · obtain ⟨hlo, hhi⟩ : 0x30 ≤ op.toNat ∧ op.toNat < 0x38 := by
          simpa [isAtomicLoad, Chi.atomicLoad, Chi.atomicSwap, BitVec.le_def, BitVec.lt_def] using h1
        obtain ⟨y, rfl⟩ := exists_subop 0x30 hlo hhi (by decide) (by decide)
        exact hload y snoopMe
      · by_cases h2 : op = Chi.atomicSwap
        · subst h2
          cases snoopMe <;> rfl
        · by_cases h3 : op = Chi.atomicCompare
          · subst h3
            cases snoopMe <;> rfl
          · rw [toAtomicReqOp, if_neg h0, if_neg h1, if_neg h2, if_neg h3]
            rfl
  rw [h] at hop
  exact beq_iff_eq.1 hop

theorem toCHI_of_write {op resp ccixOp : BitVec 8} (h : toWriteReqOp op resp = some ccixOp) : toCHI ccixOp = some op := by
  unfold toWriteReqOp at h
  split at h
  · rename_i hop
    rw [hop]
    split at h
    · exact Option.some.inj h ▸ rfl
    · split at h
      · exact Option.some.inj h ▸ rfl
      · exact nomatch h
  · split at h
    · rename_i hop
      rw [hop]
      split at h
      · exact Option.some.inj h ▸ rfl
      · exact nomatch h
    · exact toCHI_of_readOps (List.mem_append_right _ (mem_of_lookup h))

/-- **The request that comes out has the opcode of the one that went in.** -/
theorem toCHI_of_outgoing {op resp ccixOp : BitVec 8} {snoopMe : Bool} (h : outgoingOp op resp snoopMe = some ccixOp) : toCHI ccixOp = some op := by
  unfold outgoingOp at h
  split at h
  · exact toCHI_of_readOps (List.mem_append_left _ (mem_of_lookup h))
  · split at h
    · exact toCHI_of_atomic h
    · split at h
      · exact toCHI_of_write h
      · exact nomatch h

theorem isCCIXAtomic_of_toCHI {op ccixOp : BitVec 8} (h : toCHI ccixOp = some op) : isCCIXAtomic ccixOp = isAtomic op := by
  unfold toCHI at h
  split at h
  · rename_i chiOp hlookup
    have hall : (chiOps.all fun p => isCCIXAtomic p.1 == isAtomic p.2) = true := by decide +kernel
    have hop := List.all_eq_true.1 hall _ (mem_of_lookup hlookup)
    exact Option.some.inj h ▸ beq_iff_eq.1 hop
  · split at h
    · rename_i hatomic
      have hsub : ∀ y : BitVec 3, isAtomic (Chi.atomicStore ||| y.setWidth 8) = true ∧ isAtomic (Chi.atomicLoad ||| y.setWidth 8) = true := by
        decide +kernel
      have hand : ccixOp &&& 0x7 = (ccixOp.setWidth 3).setWidth 8 := by
        refine BitVec.eq_of_toNat_eq ?_
        rw [BitVec.toNat_and, BitVec.toNat_setWidth, BitVec.toNat_setWidth, show (7 : BitVec 8).toNat = 2 ^ 3 - 1 from rfl,
          Nat.and_two_pow_sub_one_eq_mod]
        exact (Nat.mod_eq_of_lt ((Nat.mod_lt _ (by decide)).trans (by decide))).symm
      rw [hatomic]
      simp only [toCHIAtomic, hand] at h
      split_ifs at h
      · exact Option.some.inj h ▸ (hsub _).1.symm
      · exact Option.some.inj h ▸ (hsub _).2.symm
      · exact Option.some.inj h ▸ rfl
      · exact Option.some.inj h ▸ rfl
    · exact nomatch h

end LibSystemCTLM.Ccix
