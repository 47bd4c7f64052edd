import LibSystemCTLM.Pcie.TlpFields

/-!
# Memory requests

The TLP of a memory request is a header and its data (`tlpMem_eq_some_iff`). The constructor that
takes it apart finds the address rounded down to a DW, and as many DWs as the payload meets when it
starts at a DW (`parse_memHdr`).
-/

namespace LibSystemCTLM.Pcie

open Foundation Tlm

/-! ### Byte enables -/

/-- **The bits of the byte enables fit in four exactly when each enabled byte is one of the first four.** -/
theorem beBits_fits (enabled : ℕ → Bool) (start i₀ n : ℕ) :
    (∃ v, beBits enabled start i₀ n = some v ∧ v.toNat < 2 ^ 4) ↔ ∀ i < n, enabled (i₀ + i) = true → start + (i₀ + i) < 4 := by
  induction n with
  | zero => exact iff_of_true ⟨0, rfl, Nat.two_pow_pos 4⟩ fun i hi => absurd hi (Nat.not_lt_zero i)
  | succ n ih =>
    have hlast : (∀ i < n + 1, enabled (i₀ + i) = true → start + (i₀ + i) < 4) ↔
        (∀ i < n, enabled (i₀ + i) = true → start + (i₀ + i) < 4) ∧ (enabled (i₀ + n) = true → start + (i₀ + n) < 4) :=
      Nat.forall_lt_succ_right
    rw [hlast, ← ih]
    by_cases hen : enabled (i₀ + n) = true
    · simp only [beBits, hen, if_true, forall_const, Option.bind_eq_bind, Option.bind_eq_some_iff]
      constructor
      · rintro ⟨v, ⟨mask, hmask, hv⟩, hlt⟩
        by_cases hk : start + (i₀ + n) < 32
        · rw [if_pos hk] at hv
          obtain rfl := Option.some.inj hv
          rw [BitVec.toNat_or] at hlt
          refine ⟨⟨mask, hmask, lt_of_le_of_lt Nat.left_le_or hlt⟩, ?_⟩
          have hbit : (1#32 <<< (start + (i₀ + n))).toNat < 2 ^ 4 := lt_of_le_of_lt Nat.right_le_or hlt
          rw [BitVec.toNat_shiftLeft, Nat.shiftLeft_eq, BitVec.toNat_ofNat, Nat.one_mod, Nat.one_mul,
            Nat.mod_eq_of_lt (Nat.pow_lt_pow_right (by omega) hk)] at hbit
          exact (Nat.pow_lt_pow_iff_right (by omega)).1 hbit
        · rw [if_neg hk] at hv
          exact nomatch hv
      · rintro ⟨⟨mask, hmask, hlt⟩, hk⟩
        refine ⟨_, ⟨mask, hmask, if_pos (by omega)⟩, ?_⟩
        rw [BitVec.toNat_or]
        refine Nat.or_lt_two_pow hlt ?_
        rw [BitVec.toNat_shiftLeft, Nat.shiftLeft_eq, BitVec.toNat_ofNat, Nat.one_mod, Nat.one_mul]
        exact lt_of_le_of_lt (Nat.mod_le _ _) (Nat.pow_lt_pow_right (by omega) hk)
    · simp only [beBits, hen, Option.bind_eq_bind, Option.bind_fun_some, Bool.false_eq_true, if_false, false_imp_iff, and_true]

theorem firstDWBE_fits (gp : GenericPayload) : ∃ first, firstDWBE gp (dwLen gp.dataLength) = some first ∧ first.toNat < 2 ^ 4 := by
  rw [firstDWBE]
  split
  · split
    · exact ⟨_, rfl, by decide⟩
    · exact (beBits_fits gp.enabled 0 0 4).2 fun i hi _ => by omega
  · exact ⟨_, rfl, by decide⟩

/-! ### The header -/

theorem dwLen_eq (n : ℕ) : dwLen n = (n + 3) / 4 := by
  rw [dwLen]
  split <;> omega

theorem le_dwLen (n : ℕ) : n ≤ dwLen n * 4 := by
  rw [dwLen_eq]
  omega

theorem toNat_lengthField {dlen : ℕ} (h : dlen ≤ maxDWLen) : (lengthField dlen).toNat = dlen % maxDWLen := by
  have hmax : maxDWLen = 1024 := rfl
  rw [lengthField]
  split
  · rename_i heq
    rw [heq, Nat.mod_self]
    rfl
  · rw [BitVec.toNat_ofNat, Nat.mod_eq_of_lt (by omega), Nat.mod_eq_of_lt (by omega)]

/-- The number of DWs is read back; 1024 is written as 0. -/
theorem getDWLen_dw0 {fmt type : BitVec 32} {n : ℕ} {rest : List (BitVec 32)} (h : Dw0Fits fmt type (lengthField n)) (hpos : 0 < n) (hn : n ≤ maxDWLen) :
    getDWLen (dw0Word fmt type (lengthField n) :: rest) = n := by
  have hmax' : maxDWLen = 1024 := rfl
  have hnat := toNat_lengthField hn
  rw [getDWLen, h.getLength]
  split
  · rename_i hz
    rw [hz] at hnat
    have h0 : n % maxDWLen = 0 := hnat.symm
    rcases Nat.lt_or_ge n maxDWLen with hlt | hge
    · rw [Nat.mod_eq_of_lt hlt] at h0
      omega
    · omega
  · rename_i hz
    rw [hnat]
    refine Nat.mod_eq_of_lt (lt_of_le_of_ne hn fun heq => hz ?_)
    rw [lengthField, if_pos heq]

/-- The IDs fit in the header. -/
def IdsFit (g : Genattr) : Prop := (g.masterId.setWidth 32).toNat < 2 ^ 16 ∧ g.transactionId.toNat < 2 ^ 8

instance (g : Genattr) : Decidable (IdsFit g) := inferInstanceAs (Decidable (_ ∧ _))

theorem placed_reqDW1 (g : Genattr) (last first : BitVec 32) : Placed ((reqDW1 g last first).map Prod.fst) := by
  show Placed [TLPReq.requestorID, TLPReq.tag, TLPReq.lastDWBE, TLPReq.firstDWBE]
  decide

theorem fit_reqDW1 {g : Genattr} {last first : BitVec 32} :
    Fit (reqDW1 g last first) ↔ IdsFit g ∧ last.toNat < 2 ^ 4 ∧ first.toNat < 2 ^ 4 := by
  simp [reqDW1, fit_cons, IdsFit, TLPReq.requestorID, TLPReq.tag, TLPReq.lastDWBE, TLPReq.firstDWBE, and_assoc]

section Header

variable (gp : GenericPayload) (g : Genattr) (last first : BitVec 32)

/-- The address DWs of a memory request. -/
def memAddrDWs : List (BitVec 32) :=
  if gen4DWhdr gp = true then [(gp.address >>> 32).setWidth 32, join (memAddrDW gp)] else [join (memAddrDW gp)]

/-- The header of a memory request. -/
def memHdr : List (BitVec 32) :=
  dw0Word (memFmt gp) typeMRdWr (lengthField (dwLen gp.dataLength)) :: join (reqDW1 g last first) :: memAddrDWs gp

variable {gp g last first}

variable (gp) in
theorem placed_memAddrDW : Placed ((memAddrDW gp).map Prod.fst) := by
  show Placed [TLPMem.addr312, TLPMem.ph]
  decide

theorem fit_memAddrDW : Fit (memAddrDW gp) :=
  fit_cons.2 ⟨getField_lt (by decide) _, fit_cons.2 ⟨Nat.two_pow_pos 2, fit_nil⟩⟩

theorem memFmt_lt : (memFmt gp).toNat < 2 ^ 3 := by
  rw [memFmt]
  split <;> split <;> decide

theorem dw0Fits_mem (hlen : gp.dataLength ≤ sz4K) : Dw0Fits (memFmt gp) typeMRdWr (lengthField (dwLen gp.dataLength)) := by
  have hmax : sz4K = 4096 := rfl
  have hmax' : maxDWLen = 1024 := rfl
  refine ⟨memFmt_lt, Nat.two_pow_pos 5, ?_⟩
  rw [toNat_lengthField (by rw [dwLen_eq]; omega)]
  exact Nat.mod_lt _ (by omega)

variable (g last first) in
theorem getDWLen_memHdr (hlen : gp.dataLength ≤ sz4K) (hpos : 0 < gp.dataLength) : getDWLen (memHdr gp g last first) = dwLen gp.dataLength := by
  have hmax : sz4K = 4096 := rfl
  have hmax' : maxDWLen = 1024 := rfl
  exact getDWLen_dw0 (dw0Fits_mem hlen) (by rw [dwLen_eq]; omega) (by rw [dwLen_eq]; omega)

/-- **The TLP of a memory request is its header and the data of a write.** -/
theorem tlpMem_eq_some_iff (hlen : gp.dataLength ≤ sz4K) {hdr : List (BitVec 32)} :
    tlpMem gp g = some hdr ↔ ∃ first last data, firstDWBE gp (dwLen gp.dataLength) = some first ∧
      lastDWBE gp (dwLen gp.dataLength) = some last ∧ (IdsFit g ∧ last.toNat < 2 ^ 4 ∧ first.toNat < 2 ^ 4) ∧
      (if gp.isWrite = true then memData gp 0 else some []) = some data ∧ hdr = memHdr gp g last first ++ data := by
  have hdw0 := word_dw0.2 ⟨dw0Fits_mem hlen, rfl⟩
  have hlow := (word_eq_some_iff (placed_memAddrDW gp)).2 ⟨fit_memAddrDW, rfl⟩
  simp only [tlpMem, hdw0, hlow, Option.bind_eq_bind, Option.bind_some, Option.bind_eq_some_iff, word_eq_some_iff (placed_reqDW1 _ _ _), fit_reqDW1,
    Option.pure_def, Option.some.injEq]
  constructor
  · rintro ⟨first, hfirst, last, hlast, w, ⟨hfit, rfl⟩, data, hdata, rfl⟩
    exact ⟨first, last, data, hfirst, hlast, hfit, hdata, rfl⟩
  · rintro ⟨first, last, data, hfirst, hlast, hfit, hdata, rfl⟩
    exact ⟨first, hfirst, last, hlast, _, ⟨hfit, rfl⟩, data, hdata, rfl⟩

theorem toNat_shiftRight_shiftLeft (a : Addr) : (a >>> 2 <<< 2).toNat + a.toNat % 4 = a.toNat := by
  rw [BitVec.toNat_shiftLeft, BitVec.toNat_ushiftRight, Nat.shiftLeft_eq, Nat.shiftRight_eq_div_pow]
  have := a.isLt
  omega

theorem getAddress_memHdr (hlen : gp.dataLength ≤ sz4K) : getAddress (memHdr gp g last first) = gp.address >>> 2 <<< 2 := by
  have hlow : TLPMem.addr312.get (join (memAddrDW gp)) = TLPMem.addr312.get (gp.address.setWidth 32) :=
    get_join_of_placed (placed_memAddrDW gp) fit_memAddrDW List.mem_cons_self
  have hfield : ∀ i, (TLPMem.addr312.get (gp.address.setWidth 32)).getLsbD i = (decide (i < 30) && gp.address.getLsbD (2 + i)) := fun i => by
    rw [BitField.get, getLsbD_getField (by decide), BitVec.getLsbD_setWidth]
    by_cases h : i < 30
    · simp [TLPMem.addr312, h, show 2 + i < 32 by omega]
    · simp [TLPMem.addr312, h]
  have hfmt : getFmt (memHdr gp g last first) = memFmt gp := (dw0Fits_mem hlen).getFmt
  apply BitVec.eq_of_getLsbD_eq
  intro i hi
  rw [getAddress, hfmt]
  by_cases h4 : gen4DWhdr gp = true
  · have hcase : memFmt gp = fmt4DWWithData ∨ memFmt gp = fmt4DWNoData := by
      rw [memFmt, if_pos h4]
      split
      · exact .inl rfl
      · exact .inr rfl
    have hdw2 : dw (memHdr gp g last first) 2 = (gp.address >>> 32).setWidth 32 := by simp [dw, memHdr, memAddrDWs, h4]
    have hdw3 : dw (memHdr gp g last first) 3 = join (memAddrDW gp) := by simp [dw, memHdr, memAddrDWs, h4]
    rw [if_pos hcase, hdw2, hdw3, hlow]
    simp only [BitVec.getLsbD_or, BitVec.getLsbD_shiftLeft, BitVec.getLsbD_setWidth, BitVec.getLsbD_ushiftRight, hfield]
    by_cases h32 : i < 32
    · by_cases h2 : i < 2
      · simp [hi, h32, h2]
      · simp [hi, h32, h2, show i - 2 < 30 by omega]
    · simp [hi, h32, show ¬ i < 2 by omega, show i - 32 < 32 by omega, show i - 32 < 64 by omega, show 32 + (i - 32) = i by omega,
        show 2 + (i - 2) = i by omega]
  · have hcase : ¬(memFmt gp = fmt4DWWithData ∨ memFmt gp = fmt4DWNoData) := by
      rw [memFmt, if_neg h4]
      split <;> decide
    have hzero : gp.address >>> 32 = 0 := by simpa [gen4DWhdr] using h4
    have hdw2 : dw (memHdr gp g last first) 2 = join (memAddrDW gp) := by simp [dw, memHdr, memAddrDWs, h4]
    rw [if_neg hcase, hdw2, hlow]
    simp only [BitVec.getLsbD_shiftLeft, BitVec.getLsbD_setWidth, BitVec.getLsbD_ushiftRight, hfield]
    by_cases h32 : i < 32
    · by_cases h2 : i < 2
      · simp [hi, h32, h2]
      · simp [hi, h32, h2, show i - 2 < 30 by omega]
    · have hbit : gp.address.getLsbD i = false := by
        have := congrArg (fun x : BitVec 64 => x.getLsbD (i - 32)) hzero
        simpa [show 32 + (i - 32) = i by omega] using this
      rw [show 2 + (i - 2) = i by omega, hbit]
      simp [h32]

variable (g last first) in
/-- **What is taken apart at the other end.** -/
theorem parse_memHdr (hlen : gp.dataLength ≤ sz4K) (data : List (BitVec 32)) :
    TLPMem.parse (bytesOf (memHdr gp g last first ++ data)) =
      if gp.isWrite = true then
        if getDWLen (memHdr gp g last first) ≤ data.length then
          some ⟨memHdr gp g last first, getDWLen (memHdr gp g last first), fun i => (bytesOf data).getD i 0⟩
        else none
      else some ⟨memHdr gp g last first, getDWLen (memHdr gp g last first), fun _ => 0⟩ := by
  set hdr := memHdr gp g last first with hhdr
  have hfmt : ∀ rest, getFmt (dw0Word (memFmt gp) typeMRdWr (lengthField (dwLen gp.dataLength)) :: rest) = memFmt gp :=
    fun rest => (dw0Fits_mem hlen).getFmt
  have hfmt' : getFmt hdr = memFmt gp := hfmt _
  have hread : (readDWs (bytesOf (hdr ++ data)) 3).bind
      (fun h => if getFmt h = fmt4DWNoData ∨ getFmt h = fmt4DWWithData then readDWs (bytesOf (hdr ++ data)) 4 else some h) = some hdr := by
    have h3 : 3 ≤ hdr.length := by
      rw [hhdr, memHdr, memAddrDWs]
      split <;> simp
    rw [readDWs_bytesOf (by rw [List.length_append]; omega), Option.bind_some]
    by_cases h4 : gen4DWhdr gp = true
    · have hl : hdr.length = 4 := by simp [hhdr, memHdr, memAddrDWs, h4]
      have hcase : memFmt gp = fmt4DWNoData ∨ memFmt gp = fmt4DWWithData := by
        rw [memFmt, if_pos h4]
        split
        · exact .inr rfl
        · exact .inl rfl
      have hcase' : getFmt ((hdr ++ data).take 3) = memFmt gp := hfmt _
      rw [hcase', if_pos hcase, readDWs_bytesOf (by rw [List.length_append]; omega), ← hl, List.take_left]
    · have hl : hdr.length = 3 := by simp [hhdr, memHdr, memAddrDWs, h4]
      have hcase : ¬(memFmt gp = fmt4DWNoData ∨ memFmt gp = fmt4DWWithData) := by
        rw [memFmt, if_neg h4]
        split <;> decide
      rw [← hl, List.take_left, hfmt', if_neg hcase]
  have hbytes : (fun i => (bytesOf (hdr ++ data)).getD (4 * hdr.length + i) 0) = fun i => (bytesOf data).getD i 0 := by
    funext i
    rw [bytesOf_append, List.getD_eq_getElem?_getD, List.getD_eq_getElem?_getD, List.getElem?_append_right (by rw [length_bytesOf]; omega), length_bytesOf,
      Nat.add_sub_cancel_left]
  have hroom : 4 * hdr.length + getDWLen hdr * 4 ≤ (bytesOf (hdr ++ data)).length ↔ getDWLen hdr ≤ data.length := by
    rw [length_bytesOf, List.length_append]
    omega
  have hwrite : (memFmt gp = fmt4DWWithData ∨ memFmt gp = fmt3DWWithData) ↔ gp.isWrite = true := by
    rw [memFmt]
    split <;> split <;> simp_all [fmt4DWWithData, fmt3DWWithData, fmt4DWNoData, fmt3DWNoData]
  rw [TLPMem.parse]
  simp only [Option.bind_eq_bind]
  rw [← Option.bind_assoc, hread, Option.bind_some]
  simp only [hfmt', hwrite, hroom, hbytes]

theorem wireType_memHdr (hlen : gp.dataLength ≤ sz4K) (data : List (BitVec 32)) :
    wireType (bytesOf (memHdr gp g last first ++ data)) = typeMRdWr := by
  rw [wireType_bytesOf _ (by simp [memHdr])]
  exact (dw0Fits_mem hlen).getType

variable (g last first) in
theorem bTransport_memHdr (hlen : gp.dataLength ≤ sz4K) (data : List (BitVec 32)) (tlps : List Request) :
    bTransport tlps (bytesOf (memHdr gp g last first ++ data)) = (TLPMem.parse (bytesOf (memHdr gp g last first ++ data))).map .mem := by
  rw [bTransport, wireType_memHdr hlen, if_neg (by decide), if_pos rfl]

theorem isMemRd_memHdr (hlen : gp.dataLength ≤ sz4K) : isMemRd (memHdr gp g last first) = !gp.isWrite := by
  have hfmt : getFmt (memHdr gp g last first) = memFmt gp := (dw0Fits_mem hlen).getFmt
  rw [isMemRd, hfmt, memFmt]
  cases gen4DWhdr gp <;> cases gp.isWrite <;> decide

end Header

end LibSystemCTLM.Pcie
