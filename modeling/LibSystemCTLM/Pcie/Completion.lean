import LibSystemCTLM.Pcie.MemRequest

/-!
# Completions over PCIe

A read or a configuration write becomes a request TLP; a completer answers it with the completion
TLP of its own payload, and the requester takes that apart. `CompletionOk` is what that is for: the
buffer of a read holds the bytes of the addresses it asks for, all of the completion is used, and a
completion that is not successful is an error.

A completer reads whole DWs from the address rounded down to a DW, as `ProcessReadDMA` does, and a
configuration request is for one DW (`completerPayload`). The requester takes one DW of a completion
and shifts it by the offset of the address, so that the rest of a DW is there, and nothing of the
next one (`data_copyData`).
-/

namespace LibSystemCTLM.Pcie

open Foundation Tlm

/-! ### The completer -/

/-- The payload of a completer for a request, and its attributes. -/
def completerPayload (s : Socket) (m : List Byte) : Option (GenericPayload × Genattr) :=
  match s with
  | .mem => match bTransport [] m with
    | some (.mem t) => some (t.dma, getGenattr t.hdr)
    | _ => none
  | .cfg => (readDWs m 3).map fun hdr =>
    ({ command := if TLPHdr.fmtDataBit.get (dw hdr 0) = 0 then .read else .write, address := cfgAddress hdr, dataLength := 4,
       streamingWidth := 4 }, getGenattr hdr)

/-- The payload after the transaction. -/
def answered (c : GenericPayload) (mem : Addr → Byte) (status : Response) : GenericPayload :=
  { c with data := fun i => mem (c.byteAddr i), response := status }

/-- The completion of a request. -/
def completion (s : Socket) (m : List Byte) (mem : Addr → Byte) (status : Response) : Option (List (BitVec 32)) := do
  let (c, g) ← completerPayload s m
  tlpCpl (answered c mem status) g

/-- How many bytes there are to address: ECAM addresses have 28 bits. -/
def Socket.space : Socket → ℕ
  | .mem => 2 ^ 64
  | .cfg => 2 ^ 28

/-- The address byte `k` of a payload asks for. -/
def place (s : Socket) (gp : GenericPayload) (k : ℕ) : Addr := BitVec.ofNat 64 ((gp.byteAddr k).toNat % s.space)

/-- What a request leaves, with a completion of the status. -/
structure Completes (s : Socket) (gp : GenericPayload) (mem : Addr → Byte) (status : Response) (cpl : List (BitVec 32)) (r : Request) : Prop where
  done : r.done = true
  ok : status = .ok → r.gp.response = .ok
  data : status = .ok → gp.isRead = true → ∀ k < gp.dataLength, gp.enabled k = true → r.gp.data k = mem (place s gp k)
  error : status ≠ .ok → r.gp.response = .error
  /-- The DWs of the completion are all taken, and there is a byte of the buffer for each. -/
  used : gp.isRead = true → TLPCpl.parse (bytesOf cpl) = some cpl ∧ cpl.length ≤ 3 + dwLen gp.dataLength

/-- Whatever the completer reads, its completion completes the request. -/
def CompletionOk (s : Socket) (gp : GenericPayload) (g : Genattr) (status : Response) : Prop :=
  ∀ mem, ∃ r cpl r', request s gp g = some r ∧ completion s r.wire mem status = some cpl ∧
    bTransport [r] (bytesOf cpl) = some (.cpl [r']) ∧ Completes s gp mem status cpl r'

/-! ### Configuration requests -/

section Conf

variable {gp : GenericPayload} {g : Genattr} {first : BitVec 32}

theorem toNat_ecamAddrBE (a : Addr) : (TLPConf.ecamAddrBE.get (a.setWidth 32)).toNat = a.toNat % 4 := by
  rw [BitField.get, toNat_getField _ _ (by decide), BitVec.toNat_setWidth]
  show a.toNat % 2 ^ 32 / 1 % 4 = a.toNat % 4
  omega

variable (gp) in
/-- The data of a configuration write is there exactly when its bytes are in the register. -/
theorem confData_isSome {start n : ℕ} (hstart : start < 4) (hn : n ≤ 4) (hlen : n ≤ gp.dataLength) :
    (∃ val, confData gp start n = some val) ↔ ∀ i < n, start + i < 4 := by
  induction n with
  | zero => exact iff_of_true ⟨0, rfl⟩ fun i hi => absurd hi (Nat.not_lt_zero i)
  | succ n ih =>
    have hshift : ((3 - BitVec.ofNat 32 start - BitVec.ofNat 32 n) * 8).toNat < 32 ↔ start + n < 4 := by
      rw [BitVec.toNat_mul, BitVec.toNat_sub, BitVec.toNat_sub, BitVec.toNat_ofNat, BitVec.toNat_ofNat]
      show ((2 ^ 32 - n % 2 ^ 32 + (2 ^ 32 - start % 2 ^ 32 + 3) % 2 ^ 32) % 2 ^ 32 * 8) % 2 ^ 32 < 32 ↔ _
      omega
    rw [Nat.forall_lt_succ_right, ← ih (by omega) (by omega), confData, byte?, if_pos (show n < gp.dataLength by omega)]
    simp only [Option.bind_eq_bind, Option.bind_eq_some_iff, Option.bind_some, hshift]
    constructor
    · rintro ⟨val, prev, hprev, hval⟩
      refine ⟨⟨prev, hprev⟩, ?_⟩
      by_contra hno
      rw [if_neg hno] at hval
      exact nomatch hval
    · rintro ⟨⟨prev, hprev⟩, hlt⟩
      exact ⟨_, prev, hprev, if_pos hlt⟩

theorem placed_confDW2 (addr : BitVec 32) : Placed ((confDW2 addr).map Prod.fst) := by
  show Placed [TLPConf.busNumber, TLPConf.deviceNumber, TLPConf.funcNumber, TLPConf.rsvd1, TLPConf.extRegNum, TLPConf.regNum, TLPConf.rsvd0]
  decide

theorem fit_confDW2 (addr : BitVec 32) : Fit (confDW2 addr) := by
  have hzero (w : ℕ) : (0 : BitVec 32).toNat < 2 ^ w := Nat.two_pow_pos w
  exact fit_cons.2 ⟨getField_lt (by decide) _, fit_cons.2 ⟨getField_lt (by decide) _, fit_cons.2 ⟨getField_lt (by decide) _,
    fit_cons.2 ⟨hzero 4, fit_cons.2 ⟨getField_lt (by decide) _, fit_cons.2 ⟨getField_lt (by decide) _, fit_cons.2 ⟨hzero 2, fit_nil⟩⟩⟩⟩⟩⟩⟩

variable (gp g first)

/-- The `fmt` of a configuration request. -/
def confFmt : BitVec 32 := if gp.isWrite = true then fmt3DWWithData else fmt3DWNoData

/-- The header of a configuration request. -/
def confHdr : List (BitVec 32) :=
  [dw0Word (confFmt gp) typeCfgRdWrType0 1, join (reqDW1 g 0 first), join (confDW2 (gp.address.setWidth 32))]

variable {gp g first}

variable (gp) in
theorem dw0Fits_conf : Dw0Fits (confFmt gp) typeCfgRdWrType0 1 := by
  rw [confFmt]
  split <;> decide

/-- **The TLP of a configuration request is its header and the data of a write.** -/
theorem tlpConf_eq_some_iff {hdr : List (BitVec 32)} :
    tlpConf gp g = some hdr ↔ ∃ first data, beBits gp.enabled (gp.address.toNat % 4) 0 (min gp.dataLength 4) = some first ∧
      (IdsFit g ∧ first.toNat < 2 ^ 4) ∧
      (if gp.isWrite = true then (confData gp (gp.address.toNat % 4) (min gp.dataLength 4)).map fun val => [val] else some []) = some data ∧
      hdr = confHdr gp g first ++ data := by
  have hdw0 := word_dw0.2 ⟨dw0Fits_conf gp, rfl⟩
  have hdw2 := (word_eq_some_iff (placed_confDW2 (gp.address.setWidth 32))).2 ⟨fit_confDW2 _, rfl⟩
  rw [confFmt] at hdw0
  simp only [tlpConf, toNat_ecamAddrBE, hdw0, hdw2, Option.bind_eq_bind, Option.bind_some, Option.bind_eq_some_iff,
    word_eq_some_iff (placed_reqDW1 _ _ _), fit_reqDW1, Option.pure_def]
  constructor
  · rintro ⟨first, hfirst, w, ⟨⟨hids, -, hlt⟩, rfl⟩, data, hdata, hhdr⟩
    exact ⟨first, data, hfirst, ⟨hids, hlt⟩, hdata, (Option.some.inj hhdr).symm⟩
  · rintro ⟨first, data, hfirst, ⟨hids, hlt⟩, hdata, rfl⟩
    exact ⟨first, hfirst, _, ⟨⟨hids, Nat.two_pow_pos 4, hlt⟩, rfl⟩, data, hdata, rfl⟩

/-- A bit of a field that is put back in its place. -/
theorem getLsbD_field {s w i : ℕ} (hw : w ≤ 32) (hi : i < 32) (a : BitVec 32) :
    (getField s w a <<< s).getLsbD i = (decide (s ≤ i ∧ i < s + w) && a.getLsbD i) := by
  rw [BitVec.getLsbD_shiftLeft, getLsbD_getField (by omega)]
  by_cases h : s ≤ i
  · simp [hi, h, show (i - s < w) = (i < s + w) by simp only [eq_iff_iff]; omega]
  · simp [h, Nat.lt_of_not_le h]

/-- The fields of an ECAM address are its bits from 2 to 27. -/
theorem join_ecamAddr (a : BitVec 32) :
    getField 20 8 a <<< 20 ||| getField 15 5 a <<< 15 ||| getField 12 3 a <<< 12 ||| getField 8 4 a <<< 8 ||| getField 2 6 a <<< 2 =
      getField 2 26 a <<< 2 := by
  apply BitVec.eq_of_getLsbD_eq
  intro i hi
  simp only [BitVec.getLsbD_or, getLsbD_field (show 8 ≤ 32 by omega) hi, getLsbD_field (show 5 ≤ 32 by omega) hi,
    getLsbD_field (show 3 ≤ 32 by omega) hi, getLsbD_field (show 4 ≤ 32 by omega) hi, getLsbD_field (show 6 ≤ 32 by omega) hi,
    getLsbD_field (show 26 ≤ 32 by omega) hi, ← Bool.and_or_distrib_right, ← Bool.decide_or]
  congr 2
  rw [eq_iff_iff]
  omega

/-- The register that is named is that of the address, in the configuration space. -/
theorem toNat_cfgAddress : (cfgAddress (confHdr gp g first)).toNat = gp.address.toNat % 2 ^ 28 / 4 * 4 := by
  have hget (n : ℕ) {f : BitField} {v : BitVec 32} (h : (confDW2 (gp.address.setWidth 32))[n]? = some (f, v)) :
      f.get (dw (confHdr gp g first) 2) = v := get_join_of_placed (placed_confDW2 _) (fit_confDW2 _) (List.mem_of_getElem? h)
  have hbus : TLPConf.busNumber.get (dw (confHdr gp g first) 2) = getField 20 8 (gp.address.setWidth 32) := hget 0 rfl
  have hdev : TLPConf.deviceNumber.get (dw (confHdr gp g first) 2) = getField 15 5 (gp.address.setWidth 32) := hget 1 rfl
  have hfn : TLPConf.funcNumber.get (dw (confHdr gp g first) 2) = getField 12 3 (gp.address.setWidth 32) := hget 2 rfl
  have hext : TLPConf.extRegNum.get (dw (confHdr gp g first) 2) = getField 8 4 (gp.address.setWidth 32) := hget 4 rfl
  have hreg : TLPConf.regNum.get (dw (confHdr gp g first) 2) = getField 2 6 (gp.address.setWidth 32) := hget 5 rfl
  rw [cfgAddress, hbus, hdev, hfn, hext, hreg, join_ecamAddr, BitVec.toNat_setWidth, BitVec.toNat_shiftLeft, toNat_getField _ _ (by decide),
    BitVec.toNat_setWidth, Nat.shiftLeft_eq]
  omega

end Conf

/-! ### Requests that are answered -/

/-- A request and the payload of its completer, of `n` DWs. -/
structure Served (s : Socket) (gp : GenericPayload) (r : Request) (c : GenericPayload) (n : ℕ) : Prop where
  gp_eq : r.gp = gp
  expects : expectsData r.hdr = gp.isRead
  txID : reqTxID r.hdr = TLPReq.requestorID.get (dw r.hdr 1) <<< 16 ||| TLPReq.tag.get (dw r.hdr 1)
  payload : completerPayload s r.wire = some (c, getGenattr r.hdr)
  isRead : c.isRead = gp.isRead
  address : c.address.toNat = gp.address.toNat % s.space / 4 * 4
  dataLength : c.dataLength = n * 4
  streamingWidth : c.streamingWidth = n * 4
  byteEnable : c.byteEnable = []
  pos : 0 < n
  le : n ≤ maxDWLen

theorem expectsData_dw0 {fmt type length : BitVec 32} {rest : List (BitVec 32)} (h : Dw0Fits fmt type length)
    (htype : type = typeCfgRdWrType0 ∨ type = typeMRdWr) : expectsData (dw0Word fmt type length :: rest) = decide (getField 1 1 fmt = 0) := by
  rw [expectsData, h.getType, h.fmtDataBit]
  rcases htype with rfl | rfl <;> rfl

section Served

variable {gp : GenericPayload} {g : Genattr} {r : Request}

/-- A memory read that is sent is answered by the DMA read. -/
theorem served_mem (hread : gp.command = .read) (hlen : gp.dataLength ≤ sz4K) (hr : request .mem gp g = some r) :
    ∃ c n, Served .mem gp r c n ∧ (0 < gp.dataLength → n = dwLen gp.dataLength) := by
  have hw : gp.isWrite = false := by simp [GenericPayload.isWrite, hread]
  have hrd : gp.isRead = true := decide_eq_true hread
  obtain ⟨hdr, htlp, rfl⟩ := Option.map_eq_some_iff.1 hr
  obtain ⟨first, last, data, -, -, -, hdata, rfl⟩ := (tlpMem_eq_some_iff hlen).1 htlp
  rw [hw, if_neg Bool.false_ne_true] at hdata
  obtain rfl := Option.some.inj hdata
  rw [hw, if_neg Bool.false_ne_true, List.append_nil]
  have hfits := dw0Fits_mem hlen
  have hparse := parse_memHdr g last first hlen []
  rw [hw, if_neg Bool.false_ne_true, List.append_nil] at hparse
  have hbt : bTransport [] (bytesOf (memHdr gp g last first)) = some (.mem ⟨memHdr gp g last first, getDWLen (memHdr gp g last first), fun _ => 0⟩) := by
    have hall := bTransport_memHdr g last first hlen [] []
    rw [List.append_nil, hparse] at hall
    exact hall
  have hdma : TLPMem.dma ⟨memHdr gp g last first, getDWLen (memHdr gp g last first), fun _ => 0⟩ =
      TLPMem.processReadDMA ⟨memHdr gp g last first, getDWLen (memHdr gp g last first), fun _ => 0⟩ := by
    rw [TLPMem.dma, isMemRd_memHdr hlen, hw]
    rfl
  refine ⟨TLPMem.processReadDMA ⟨memHdr gp g last first, getDWLen (memHdr gp g last first), fun _ => 0⟩, getDWLen (memHdr gp g last first), ⟨rfl, ?_, hfits.txID 1, ?_, ?_, ?_, rfl, rfl, rfl, getDWLen_pos _, getDWLen_le _⟩,
    getDWLen_memHdr _ _ _ hlen⟩
  · refine (expectsData_dw0 hfits (.inr rfl)).trans ?_
    rw [hrd, memFmt, hw]
    cases gen4DWhdr gp <;> rfl
  · rw [completerPayload, Request.wire, hbt]
    exact congrArg (fun c => some (c, _)) hdma
  · rw [hrd]
    rfl
  · have hround := toNat_shiftRight_shiftLeft gp.address
    show (getAddress (memHdr gp g last first)).toNat = gp.address.toNat % 2 ^ 64 / 4 * 4
    rw [getAddress_memHdr hlen]
    omega

/-- A configuration request that is sent is answered by its register. -/
theorem served_cfg (hcmd : gp.command = .read ∨ gp.command = .write) (hr : request .cfg gp g = some r) : ∃ c, Served .cfg gp r c 1 := by
  obtain ⟨hdr, htlp, rfl⟩ := Option.map_eq_some_iff.1 hr
  obtain ⟨first, data, -, -, hdata, rfl⟩ := tlpConf_eq_some_iff.1 htlp
  have hfits := dw0Fits_conf gp
  have hbit : decide (getField 1 1 (confFmt gp) = 0) = gp.isRead := by
    rcases hcmd with h | h <;> simp only [confFmt, GenericPayload.isWrite, GenericPayload.isRead, h] <;> rfl
  have hread : (readDWs (bytesOf (confHdr gp g first ++ data)) 3) = some (confHdr gp g first) :=
    @readDWs_bytesOf (confHdr gp g first ++ data) 3 (by rw [List.length_append]; exact Nat.le_add_right 3 _)
  refine ⟨{ command := if TLPHdr.fmtDataBit.get (dw (confHdr gp g first) 0) = 0 then .read else .write,
            address := cfgAddress (confHdr gp g first), dataLength := 4, streamingWidth := 4 }, rfl, (expectsData_dw0 hfits (.inl rfl)).trans hbit, hfits.txID 1, ?_, ?_, ?_, rfl, rfl, rfl, Nat.one_pos, by decide⟩
  · rw [completerPayload, Request.wire, hread]
    rfl
  · have hfield : TLPHdr.fmtDataBit.get (dw (confHdr gp g first) 0) = getField 1 1 (confFmt gp) := hfits.fmtDataBit
    show decide ((if TLPHdr.fmtDataBit.get (dw (confHdr gp g first) 0) = 0 then Command.read else Command.write) = .read) = gp.isRead
    rw [← hbit, hfield]
    split
    · rename_i hz
      rw [decide_eq_true hz]
      rfl
    · rename_i hz
      rw [decide_eq_false hz]
      rfl
  · exact toNat_cfgAddress

end Served

/-! ### The completion -/

section Cpl

variable {s : Socket} {gp c : GenericPayload} {g : Genattr} {r : Request} {n : ℕ} {mem : Addr → Byte} {status : Response}

/-- The TLP of a completion of `n` DWs. -/
theorem tlpCpl_eq (hlen : c.dataLength = n * 4) (hn : n ≤ maxDWLen) (hbe : c.byteEnable = []) (hids : IdsFit g) :
    ∃ fmt w1 w2, tlpCpl c g = some (dw0Word fmt typeCpl (lengthField n) :: w1 :: w2 :: cplData c) ∧ Dw0Fits fmt typeCpl (lengthField n) ∧
      (fmt = fmt3DWWithData ↔ c.isRead = true) ∧ TLPReq.requestorID.get w2 = g.masterId.setWidth 32 ∧ TLPReq.tag.get w2 = g.transactionId := by
  have hmax : sz4K = 4096 := rfl
  have hmax' : maxDWLen = 1024 := rfl
  have hdw : dwLen c.dataLength = n := by
    rw [hlen, dwLen_eq]
    omega
  have hfits : Dw0Fits (if c.isRead = true then fmt3DWWithData else fmt3DWNoData) typeCpl (lengthField n) := by
    refine ⟨by split <;> decide, by decide, ?_⟩
    rw [toNat_lengthField hn]
    exact Nat.mod_lt _ (by omega)
  let dw1 (status : BitVec 32) : List (BitField × BitVec 32) := [(TLPCpl.completerID, 0), (TLPCpl.cplStatus, status), (TLPCpl.bcm, 0),
    (TLPCpl.byteCount, if c.dataLength = sz4K then 0 else BitVec.ofNat 32 c.dataLength)]
  have hplaced1 (status : BitVec 32) : Placed ((dw1 status).map Prod.fst) := by
    show Placed [TLPCpl.completerID, TLPCpl.cplStatus, TLPCpl.bcm, TLPCpl.byteCount]
    decide
  have hfit1 : Fit (dw1 (if c.response = .ok then cplSC else cplUR)) := by
    refine fit_cons.2 ⟨Nat.two_pow_pos 16, fit_cons.2 ⟨?_, fit_cons.2 ⟨Nat.two_pow_pos 1, fit_cons.2 ⟨?_, fit_nil⟩⟩⟩⟩
    · show BitVec.toNat (if c.response = .ok then cplSC else cplUR) < 2 ^ 3
      split <;> decide
    · show BitVec.toNat (if c.dataLength = sz4K then 0 else BitVec.ofNat 32 c.dataLength) < 2 ^ 12
      split
      · exact Nat.two_pow_pos 12
      · rw [BitVec.toNat_ofNat]
        omega
  let dw2 : List (BitField × BitVec 32) := [(TLPCpl.requestorID, g.masterId.setWidth 32), (TLPCpl.tag, g.transactionId),
    (TLPCpl.lowerAddress, BitVec.ofNat 32 (lowerAddr c.byteEnable))]
  have hplaced2 : Placed (dw2.map Prod.fst) := by
    show Placed [TLPCpl.requestorID, TLPCpl.tag, TLPCpl.lowerAddress]
    decide
  have hfit2 : Fit dw2 := by
    refine fit_cons.2 ⟨hids.1, fit_cons.2 ⟨hids.2, fit_cons.2 ⟨?_, fit_nil⟩⟩⟩
    rw [hbe]
    exact Nat.two_pow_pos 7
  refine ⟨_, join (dw1 (if c.response = .ok then cplSC else cplUR)), join dw2, ?_, hfits, ?_, get_join_of_placed hplaced2 hfit2 List.mem_cons_self,
    get_join_of_placed hplaced2 hfit2 (List.mem_cons_of_mem _ List.mem_cons_self)⟩
  · have hdw0 := word_dw0.2 ⟨hfits, rfl⟩
    have hword1 := (word_eq_some_iff (hplaced1 _)).2 ⟨hfit1, rfl⟩
    have hword2 := (word_eq_some_iff hplaced2).2 ⟨hfit2, rfl⟩
    rw [tlpCpl]
    simp only [hdw, hdw0, Option.bind_eq_bind, Option.bind_some]
    rw [hword1, Option.bind_some, hword2]
    rfl
  · cases c.isRead <;> decide

theorem idsFit_getGenattr (hdr : List (BitVec 32)) : IdsFit (getGenattr hdr) := by
  refine ⟨?_, getField_lt (by decide) _⟩
  have hlt : (TLPReq.requestorID.get (dw hdr 1)).toNat < 2 ^ 16 := getField_lt (by decide) _
  rw [getGenattr, BitVec.toNat_setWidth, BitVec.toNat_setWidth]
  omega

theorem setWidth_getGenattr (hdr : List (BitVec 32)) : (getGenattr hdr).masterId.setWidth 32 = TLPReq.requestorID.get (dw hdr 1) := by
  apply BitVec.eq_of_toNat_eq
  rw [getGenattr, BitVec.toNat_setWidth, BitVec.toNat_setWidth]
  have := (TLPReq.requestorID.get (dw hdr 1)).isLt
  omega

/-- A DW of four bytes of the memory. -/
def memDW (mem : Addr → Byte) (base : Addr) (j : ℕ) : BitVec 32 :=
  let d (i : ℕ) : Byte := mem (base + BitVec.ofNat 64 (4 * j + i))
  word32 (d 0) (d 1) (d 2) (d 3)

theorem cplData_answered (hlen : c.dataLength = n * 4) (hsw : c.streamingWidth = n * 4) :
    cplData (answered c mem status) = (List.range n).map (memDW mem c.address) := by
  have hdw : dwLen (answered c mem status).dataLength = n := by
    show dwLen c.dataLength = n
    rw [hlen, dwLen_eq]
    omega
  rw [cplData, hdw]
  refine List.map_congr_left fun j hj => ?_
  have hj := List.mem_range.1 hj
  have hbyte : ∀ i < 4, (if 4 * j + i < (answered c mem status).dataLength then (answered c mem status).data (4 * j + i) else 0) =
      mem (c.address + BitVec.ofNat 64 (4 * j + i)) := fun i hi => by
    have hlt : 4 * j + i < (answered c mem status).dataLength := by
      show 4 * j + i < c.dataLength
      omega
    rw [if_pos hlt]
    show mem (c.address + BitVec.ofNat 64 ((4 * j + i) % c.streamingWidth)) = _
    rw [hsw, Nat.mod_eq_of_lt (by omega)]
  simp only [hbyte 0 (by omega), hbyte 1 (by omega), hbyte 2 (by omega), hbyte 3 (by omega)]
  rfl

/-- The completion of a request that is answered. -/
structure CplOf (gp : GenericPayload) (r : Request) (n : ℕ) (mem : Addr → Byte) (base : Addr) (cpl : List (BitVec 32)) : Prop where
  type : getType cpl = typeCpl
  isCplD : isCplD cpl = gp.isRead
  txID : cplTxID cpl = reqTxID r.hdr
  dwLen : getDWLen cpl = n
  data : ∃ w0 w1 w2, cpl = w0 :: w1 :: w2 :: (List.range n).map (memDW mem base)

theorem Served.cplOf (h : Served s gp r c n) (mem : Addr → Byte) (status : Response) :
    ∃ cpl, completion s r.wire mem status = some cpl ∧ CplOf gp r n mem c.address cpl := by
  obtain ⟨fmt, w1, w2, hcpl, hfits, hfmt, hid, htag⟩ := tlpCpl_eq (c := answered c mem status) h.dataLength h.le h.byteEnable (idsFit_getGenattr r.hdr)
  rw [cplData_answered h.dataLength h.streamingWidth] at hcpl
  refine ⟨_, ?_, hfits.getType, ?_, ?_, getDWLen_dw0 hfits h.pos h.le, _, w1, w2, rfl⟩
  · rw [completion, h.payload]
    exact hcpl
  · rw [isCplD, hfits.getFmt, ← h.isRead]
    exact Bool.eq_iff_iff.2 (decide_eq_true_iff.trans hfmt)
  · rw [h.txID, cplTxID, hfits.txID]
    show TLPReq.requestorID.get w2 <<< 16 ||| TLPReq.tag.get w2 = _
    rw [hid, htag, setWidth_getGenattr]
    rfl

/-- What the requester keeps of a completion. -/
theorem CplOf.parse {cpl : List (BitVec 32)} {base : Addr} (h : CplOf gp r n mem base cpl) (hpos : 0 < n) :
    TLPCpl.parse (bytesOf cpl) = some (cpl.take (if gp.isRead = true then 4 else 3)) := by
  obtain ⟨w0, w1, w2, rfl⟩ := h.data
  have hlen : (w0 :: w1 :: w2 :: (List.range n).map (memDW mem base)).length = n + 3 := by simp
  have hD : Pcie.isCplD ((w0 :: w1 :: w2 :: (List.range n).map (memDW mem base)).take 3) = gp.isRead := h.isCplD
  rw [TLPCpl.parse, readDWs_bytesOf (by omega), Option.bind_eq_bind, Option.bind_some, hD]
  split
  · exact readDWs_bytesOf (by omega)
  · rfl

/-- **The completion is found and completes the request.** -/
theorem CplOf.bTransport_eq {cpl : List (BitVec 32)} {base : Addr} (h : CplOf gp r n mem base cpl) (hpos : 0 < n) :
    bTransport [r] (bytesOf cpl) = (complete r (cpl.take (if gp.isRead = true then 4 else 3))).map fun r' => .cpl [r'] := by
  have hparse := h.parse hpos
  obtain ⟨w0, w1, w2, rfl⟩ := h.data
  have hid : ∀ k, cplTxID ((w0 :: w1 :: w2 :: (List.range n).map (memDW mem base)).take (3 + k)) = reqTxID r.hdr := fun k => by
    rw [Nat.add_comm, List.take_succ_cons, List.take_succ_cons, List.take_succ_cons]
    exact h.txID
  have htx : cplTxID ((w0 :: w1 :: w2 :: (List.range n).map (memDW mem base)).take (if gp.isRead = true then 4 else 3)) = reqTxID r.hdr := by
    split
    · exact hid 1
    · exact hid 0
  have htype : wireType (bytesOf (w0 :: w1 :: w2 :: (List.range n).map (memDW mem base))) = typeCpl :=
    (wireType_bytesOf _ (List.cons_ne_nil _ _)).trans h.type
  rw [bTransport, if_pos htype, hparse, Option.bind_eq_bind, Option.bind_some, htx]
  have hfind : [r].findIdx? (fun r' => decide (reqTxID r'.hdr = reqTxID r.hdr)) = some 0 := by simp
  rw [hfind]
  show ((complete r _).bind fun r' => some (Received.cpl [r'])) = _
  cases complete r ((w0 :: w1 :: w2 :: (List.range n).map (memDW mem base)).take (if gp.isRead = true then 4 else 3)) <;> rfl

end Cpl

/-! ### The requester -/

section Requester

variable {s : Socket} {gp c : GenericPayload} {r r' : Request} {n : ℕ} {mem : Addr → Byte} {status : Response} {cpl : List (BitVec 32)}

/-- The response is never an error when data comes exactly for a read, as it does whatever the status. -/
theorem complete_ok (h : expectsData r.hdr = isCplD cpl) (hr' : complete r cpl = some r') : r'.done = true ∧ r'.gp.response = .ok := by
  rw [complete, if_pos h] at hr'
  obtain ⟨gp', -, hsome⟩ := Option.bind_eq_some_iff.1 hr'
  obtain rfl := Option.some.inj hsome
  exact ⟨rfl, rfl⟩

/-- A byte of the first DW of the completion, or nothing. -/
def copied (mem : Addr → Byte) (base : Addr) (i : ℕ) : Byte := if i < 4 then mem (base + BitVec.ofNat 64 i) else 0

theorem getD_memDW (mem : Addr → Byte) (base : Addr) {i : ℕ} (hi : i < 4) :
    (wordBytes (memDW mem base 0)).getD i 0 = mem (base + BitVec.ofNat 64 i) := by
  rw [memDW, wordBytes_word32]
  match i with
  | 0 => rfl
  | 1 => rfl
  | 2 => rfl
  | 3 => rfl

/-- **What a completion of one DW leaves in the buffer.** -/
theorem data_copyData {base : Addr} (hcpl : CplOf gp r 1 mem base cpl) (hread : gp.isRead = true) :
    ∃ gp', copyData gp cpl = some gp' ∧ ∀ k < gp.dataLength, gp'.data k = copied mem base (gp.address.toNat % 4 + k) := by
  have hD : isCplD cpl = true := hcpl.isCplD.trans hread
  have hfmt : getFmt cpl = fmt3DWWithData := of_decide_eq_true hD
  have hlen := hcpl.dwLen
  obtain ⟨w0, w1, w2, rfl⟩ := hcpl.data
  have hdata : ∀ pos, (if pos < getDWLen (w0 :: w1 :: w2 :: (List.range 1).map (memDW mem base)) then
      getTLPData (w0 :: w1 :: w2 :: (List.range 1).map (memDW mem base)) pos else some 0) =
        some (if pos = 0 then memDW mem base 0 else 0) := fun pos => by
    rw [hlen]
    by_cases hpos : pos = 0
    · rw [hpos, if_pos Nat.one_pos, if_pos rfl, getTLPData, if_pos hfmt]
      rfl
    · rw [if_neg (by omega), if_neg hpos]
  have hvs : ((List.range (dwLen gp.dataLength)).mapM fun pos =>
      if pos < getDWLen (w0 :: w1 :: w2 :: (List.range 1).map (memDW mem base)) then
        getTLPData (w0 :: w1 :: w2 :: (List.range 1).map (memDW mem base)) pos else some 0) =
          some ((List.range (dwLen gp.dataLength)).map fun pos => if pos = 0 then memDW mem base 0 else 0) := by
    simp only [hdata]
    exact List.mapM_pure
  refine ⟨copyInto gp _, (congrArg (Option.map (copyInto gp)) hvs).trans rfl, fun k hk => ?_⟩
  · have hdw : k / 4 < dwLen gp.dataLength := by
      rw [dwLen_eq]
      omega
    have hv : ((List.range (dwLen gp.dataLength)).map fun pos => if pos = 0 then memDW mem base 0 else 0).getD (k / 4) 0 =
        if k / 4 = 0 then memDW mem base 0 else 0 := by
      rw [List.getD_eq_getElem?_getD, List.getElem?_map, List.getElem?_range hdw]
      rfl
    rw [copyInto]
    simp only [if_pos hk]
    rw [hv, wordBytes_shiftLeft _ _ (Nat.mod_lt _ (by omega)), copied]
    by_cases h4 : gp.address.toNat % 4 + k < 4
    · rw [if_pos (by omega : k / 4 = 0), Nat.mod_eq_of_lt (by omega : k < 4), if_pos h4, if_pos h4, getD_memDW _ _ h4]
    · rw [if_neg h4]
      split
      · rename_i hlt
        have hk4 : ¬ k / 4 = 0 := by omega
        rw [if_neg hk4, getD_wordBytes _ hlt]
        simp
      · rfl

theorem complete_read (hexp : expectsData r.hdr = true) (hD : isCplD cpl = true) {gp' : GenericPayload} (hdata : copyData r.gp cpl = some gp') :
    complete r cpl = some { r with gp := { gp' with response := .ok }, done := true } := by
  rw [complete, hexp, hD, if_pos rfl, if_pos ⟨rfl, rfl⟩, hdata]
  rfl

theorem complete_write (hexp : expectsData r.hdr = false) (hD : isCplD cpl = false) :
    complete r cpl = some { r with gp := { r.gp with response := .ok }, done := true } := by
  rw [complete, hexp, hD, if_pos rfl, if_neg fun h => Bool.false_ne_true h.1]
  rfl

/-- The DW that is read has byte `k` of the payload where the buffer takes it, unless the payload streams. -/
theorem place_eq_iff {base : Addr} {k : ℕ} (hbase : base.toNat = gp.address.toNat % s.space / 4 * 4) (hk : gp.address.toNat % 4 + k < 4) :
    base + BitVec.ofNat 64 (gp.address.toNat % 4 + k) = place s gp k ↔ k % gp.streamingWidth = k := by
  have hle : k % gp.streamingWidth ≤ k := Nat.mod_le _ _
  rw [← BitVec.toNat_inj, BitVec.toNat_add, hbase, place, GenericPayload.byteAddr_eq]
  simp only [BitVec.toNat_ofNat]
  cases s with
  | mem =>
    rw [Socket.space]
    omega
  | cfg =>
    rw [Socket.space]
    omega

theorem CplOf.isCplD_take {base : Addr} (h : CplOf gp r n mem base cpl) (k : ℕ) : Pcie.isCplD (cpl.take (k + 1)) = gp.isRead := by
  obtain ⟨w0, w1, w2, rfl⟩ := h.data
  exact h.isCplD

end Requester

/-! ### The completions that arrive -/

section Arrives

variable {s : Socket} {gp : GenericPayload} {g : Genattr} {status : Response}

theorem idsFit_of_request (hlen : gp.dataLength ≤ sz4K) {r : Request} (hr : request s gp g = some r) : IdsFit g := by
  cases s with
  | mem =>
    obtain ⟨hdr, htlp, -⟩ := Option.map_eq_some_iff.1 hr
    obtain ⟨-, -, -, -, -, ⟨hids, -⟩, -⟩ := (tlpMem_eq_some_iff hlen).1 htlp
    exact hids
  | cfg =>
    obtain ⟨hdr, htlp, -⟩ := Option.map_eq_some_iff.1 hr
    obtain ⟨-, -, -, ⟨hids, -⟩, -⟩ := tlpConf_eq_some_iff.1 htlp
    exact hids

theorem served (hcmd : gp.command = .read ∨ s = .cfg ∧ gp.command = .write) (hlen : gp.dataLength ≤ sz4K) {r : Request} (hr : request s gp g = some r) :
    ∃ c n, Served s gp r c n ∧ (s = .cfg → n = 1) ∧ (s = .mem → 0 < gp.dataLength → n = dwLen gp.dataLength) := by
  cases s with
  | mem =>
    obtain ⟨c, n, hs, hn⟩ := served_mem (hcmd.resolve_right fun h => nomatch h.1) hlen hr
    exact ⟨c, n, hs, (fun h => nomatch h), fun _ => hn⟩
  | cfg =>
    obtain ⟨c, hs⟩ := served_cfg (hcmd.imp_right And.right) hr
    exact ⟨c, 1, hs, fun _ => rfl, fun h => nomatch h⟩

/-- What is known of a completion that completes its request. -/
theorem CompletionOk.inverted (hcmd : gp.command = .read ∨ s = .cfg ∧ gp.command = .write) (hlen : gp.dataLength ≤ sz4K)
    (h : CompletionOk s gp g status) (mem : Addr → Byte) :
    ∃ r c n cpl r', request s gp g = some r ∧ Served s gp r c n ∧ (s = .mem → 0 < gp.dataLength → n = dwLen gp.dataLength) ∧
      CplOf gp r n mem c.address cpl ∧ complete r (cpl.take (if gp.isRead = true then 4 else 3)) = some r' ∧ r'.gp.response = .ok ∧
      Completes s gp mem status cpl r' := by
  obtain ⟨r, cpl, r', hr, hcpl, hbt, hC⟩ := h mem
  obtain ⟨c, n, hs, -, hn⟩ := served hcmd hlen hr
  obtain ⟨cpl', hcpl', hof⟩ := hs.cplOf mem status
  obtain rfl := Option.some.inj (hcpl.symm.trans hcpl')
  rw [hof.bTransport_eq hs.pos] at hbt
  obtain ⟨r'', hcomp, heq⟩ := Option.map_eq_some_iff.1 hbt
  obtain rfl : r'' = r' := List.head_eq_of_cons_eq (Received.cpl.inj heq)
  have hD : isCplD (cpl.take (if gp.isRead = true then 4 else 3)) = gp.isRead := by
    split
    · exact hof.isCplD_take 3
    · exact hof.isCplD_take 2
  exact ⟨r, c, n, cpl, r'', hr, hs, hn, hof, hcomp, (complete_ok (hs.expects.trans hD.symm) hcomp).2, hC⟩

/-- A completion that is not successful is no error. -/
theorem CompletionOk.status_eq (hcmd : gp.command = .read ∨ s = .cfg ∧ gp.command = .write) (hlen : gp.dataLength ≤ sz4K)
    (h : CompletionOk s gp g status) : status = .ok := by
  obtain ⟨r, c, n, cpl, r', -, -, -, -, -, hok, hC⟩ := h.inverted hcmd hlen fun _ => 0
  by_contra hne
  exact nomatch hok.symm.trans (hC.error hne)

/-- A read that is completed takes its bytes from a single DW. -/
theorem CompletionOk.one_dw (hread : gp.command = .read) (hlen : gp.dataLength ≤ sz4K) (h : CompletionOk s gp g status) (mem : Addr → Byte) :
    (0 < gp.dataLength ∧ (s = .mem → gp.dataLength ≤ 4)) ∧ ∃ base : Addr, base.toNat = gp.address.toNat % s.space / 4 * 4 ∧
      ∀ k < gp.dataLength, gp.enabled k = true → copied mem base (gp.address.toNat % 4 + k) = mem (place s gp k) := by
  obtain ⟨r, c, n, cpl, r', hr, hs, hn, hof, hcomp, -, hC⟩ := h.inverted (.inl hread) hlen mem
  have hrd : gp.isRead = true := decide_eq_true hread
  obtain ⟨hparse, hused⟩ := hC.used hrd
  have htake := hparse.symm.trans (hof.parse hs.pos)
  rw [if_pos hrd] at htake hcomp
  have hcpl : cpl.take 4 = cpl := (Option.some.inj htake).symm
  have hcount : cpl.length = n + 3 := by
    obtain ⟨w0, w1, w2, rfl⟩ := hof.data
    simp
  have hle : cpl.length ≤ 4 := by
    rw [← hcpl, List.length_take]
    exact Nat.min_le_left _ _
  obtain rfl : n = 1 := by
    have := hs.pos
    omega
  rw [dwLen_eq] at hused
  have hpos : 0 < gp.dataLength := by omega
  refine ⟨⟨hpos, fun hmem => ?_⟩, c.address, hs.address, fun k hk hen => ?_⟩
  · have := hn hmem hpos
    rw [dwLen_eq] at this
    omega
  · obtain ⟨gp', hcopy, hdata⟩ := data_copyData hof hrd
    rw [hcpl, complete_read (hs.expects.trans hrd) (hof.isCplD.trans hrd) (hs.gp_eq ▸ hcopy)] at hcomp
    obtain rfl := Option.some.inj hcomp
    rw [← hdata k hk]
    exact hC.data (h.status_eq (.inl hread) hlen) hrd k hk hen

theorem request_mem (hread : gp.command = .read) (hlen : gp.dataLength ≤ 4) (hids : IdsFit g) : ∃ r, request .mem gp g = some r := by
  have hw : gp.isWrite = false := by simp [GenericPayload.isWrite, hread]
  have hmax : sz4K = 4096 := rfl
  obtain ⟨first, hfirst, hfirst4⟩ := firstDWBE_fits gp
  have hlast : lastDWBE gp (dwLen gp.dataLength) = some 0 := if_neg (by rw [dwLen_eq]; omega)
  have hdata : (if gp.isWrite = true then memData gp 0 else some []) = some [] := by rw [hw, if_neg Bool.false_ne_true]
  exact ⟨_, Option.map_eq_some_iff.2
    ⟨_, (tlpMem_eq_some_iff (by omega)).2 ⟨first, 0, [], hfirst, hlast, ⟨hids, Nat.two_pow_pos 4, hfirst4⟩, hdata, rfl⟩, rfl⟩⟩

/-- A configuration request is sent exactly when its bytes are in the register. -/
theorem request_cfg : (∃ r, request .cfg gp g = some r) ↔ IdsFit g ∧
    (∀ i < min gp.dataLength 4, gp.enabled i = true → gp.address.toNat % 4 + i < 4) ∧
      (gp.isWrite = true → ∀ i < min gp.dataLength 4, gp.address.toNat % 4 + i < 4) := by
  have hfits := beBits_fits gp.enabled (gp.address.toNat % 4) 0 (min gp.dataLength 4)
  have hdata := confData_isSome gp (Nat.mod_lt gp.address.toNat (show 0 < 4 by omega)) (Nat.min_le_right gp.dataLength 4)
    (Nat.min_le_left gp.dataLength 4)
  simp only [Nat.zero_add] at hfits
  rw [← hfits, ← hdata]
  constructor
  · rintro ⟨r, hr⟩
    obtain ⟨hdr, htlp, -⟩ := Option.map_eq_some_iff.1 hr
    obtain ⟨first, data, hfirst, ⟨hids, hlt⟩, hsome, -⟩ := tlpConf_eq_some_iff.1 htlp
    refine ⟨hids, ⟨first, hfirst, hlt⟩, fun hw => ?_⟩
    rw [if_pos hw] at hsome
    obtain ⟨val, hval, -⟩ := Option.map_eq_some_iff.1 hsome
    exact ⟨val, hval⟩
  · rintro ⟨hids, ⟨first, hfirst, hlt⟩, hval⟩
    have hsome : ∃ data, (if gp.isWrite = true then (confData gp (gp.address.toNat % 4) (min gp.dataLength 4)).map fun val => [val] else some []) =
        some data := by
      split
      · rename_i hw
        obtain ⟨val, hval⟩ := hval hw
        exact ⟨[val], by rw [hval]; rfl⟩
      · exact ⟨[], rfl⟩
    obtain ⟨data, hdata⟩ := hsome
    exact ⟨_, Option.map_eq_some_iff.2 ⟨_, tlpConf_eq_some_iff.2 ⟨first, data, hfirst, ⟨hids, hlt⟩, hdata, rfl⟩, rfl⟩⟩

/-- The bytes a payload asks for are in the DW it starts in, in their order. -/
def InOneDW (gp : GenericPayload) : Prop := ∀ k < gp.dataLength, gp.enabled k = true → gp.address.toNat % 4 + k < 4 ∧ k % gp.streamingWidth = k

/-- A read whose bytes are in one DW is completed. -/
theorem completionOk_read {r : Request} (hread : gp.command = .read) (hlen : gp.dataLength ≤ sz4K) (hr : request s gp g = some r)
    (hpos : 0 < gp.dataLength) (hmem : s = .mem → gp.dataLength ≤ 4) (hdw : InOneDW gp) : CompletionOk s gp g .ok := by
  intro mem
  have hrd : gp.isRead = true := decide_eq_true hread
  obtain ⟨c, n, hs, hcfg, hn⟩ := served (.inl hread) hlen hr
  obtain rfl : n = 1 := by
    cases s with
    | mem =>
      have hle := hmem rfl
      rw [hn rfl hpos, dwLen_eq]
      omega
    | cfg => exact hcfg rfl
  obtain ⟨cpl, hcpl, hof⟩ := hs.cplOf mem .ok
  obtain ⟨gp', hcopy, hdata⟩ := data_copyData hof hrd
  have htake : cpl.take 4 = cpl := by
    obtain ⟨w0, w1, w2, rfl⟩ := hof.data
    rfl
  have hcount : cpl.length = 4 := by
    obtain ⟨w0, w1, w2, rfl⟩ := hof.data
    rfl
  have hcomp := complete_read (hs.expects.trans hrd) (hof.isCplD.trans hrd) (hs.gp_eq ▸ hcopy)
  have hparse := hof.parse hs.pos
  have hbt := hof.bTransport_eq hs.pos
  rw [if_pos hrd, htake] at hparse hbt
  rw [hcomp] at hbt
  refine ⟨r, cpl, _, hr, hcpl, hbt, ⟨rfl, fun _ => rfl, fun _ _ k hk hen => ?_, fun hne => absurd rfl hne, fun _ => ⟨hparse, ?_⟩⟩⟩
  · obtain ⟨h4, hsw⟩ := hdw k hk hen
    show gp'.data k = _
    rw [hdata k hk, copied, if_pos h4, (place_eq_iff hs.address h4).2 hsw]
  · rw [hcount, dwLen_eq]
    omega

/-- A configuration write that is sent is completed. -/
theorem completionOk_write {r : Request} (hwrite : gp.command = .write) (hr : request .cfg gp g = some r) : CompletionOk .cfg gp g .ok := by
  intro mem
  have hrd : gp.isRead = false := by simp [GenericPayload.isRead, hwrite]
  obtain ⟨c, hs⟩ := served_cfg (.inr hwrite) hr
  obtain ⟨cpl, hcpl, hof⟩ := hs.cplOf mem .ok
  have hD : isCplD (cpl.take 3) = false := (hof.isCplD_take 2).trans hrd
  have hbt := hof.bTransport_eq hs.pos
  rw [hrd, if_neg Bool.false_ne_true, complete_write (hs.expects.trans hrd) hD] at hbt
  refine ⟨r, cpl, _, hr, hcpl, hbt, ⟨rfl, fun _ => rfl, fun _ h => ?_, fun hne => absurd rfl hne, fun h => ?_⟩⟩
  · exact absurd (hrd.symm.trans h) Bool.false_ne_true
  · exact absurd (hrd.symm.trans h) Bool.false_ne_true

end Arrives

end LibSystemCTLM.Pcie
