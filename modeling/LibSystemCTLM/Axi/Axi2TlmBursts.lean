import LibSystemCTLM.Axi.Axi2TlmBurst

/-!
# Which write bursts `axi2tlm_bridge` reconstructs

`FillData` goes on from lane to lane to the end of the bus in each beat, so the payload of a write
burst holds the lanes of its beats one after the other (`payload_writes`). This is what AXI makes of
them for the beats whose bus word is the one at that place of the payload (`writeOk_iff`).
-/

namespace LibSystemCTLM.Axi2Tlm

open Foundation Tlm

variable {cfg : Config}

theorem Config.bus_pos (cfg : Config) : 0 < cfg.dataBusBytes := Nat.two_pow_pos _

theorem Config.bus_dvd (cfg : Config) : cfg.dataBusBytes ∣ 2 ^ 64 := pow_dvd_pow 2 (cfg.busBits_le.trans (by omega))

/-! ### Filling a payload -/

namespace Transaction

variable {tr : Transaction} {s : ℕ → Bool} {d : ℕ → Byte} {j : ℕ}

/-- The payload holds the first `j` lanes: which are strobed, and the bytes of those. -/
structure Filled (tr : Transaction) (s : ℕ → Bool) (d : ℕ → Byte) (j : ℕ) : Prop where
  idx : tr.dataIdx = min tr.gp.dataLength j
  length : tr.gp.byteEnable.length = tr.gp.dataLength
  enables : ∀ k < tr.dataIdx, tr.gp.byteEnable[k]? = some (if s k = true then byteEnabled else byteDisabled)
  bytes : ∀ k < tr.dataIdx, s k = true → tr.gp.data k = d k

/-- What filling lanes does not change. -/
structure SameShape (tr tr' : Transaction) : Prop where
  address : tr'.gp.address = tr.gp.address
  dataLength : tr'.gp.dataLength = tr.gp.dataLength
  streamingWidth : tr'.gp.streamingWidth = tr.gp.streamingWidth
  beat : tr'.beat = tr.beat

theorem SameShape.refl (tr : Transaction) : tr.SameShape tr := ⟨rfl, rfl, rfl, rfl⟩

theorem SameShape.trans {tr tr' tr'' : Transaction} (h : tr.SameShape tr') (h' : tr'.SameShape tr'') : tr.SameShape tr'' :=
  ⟨h'.address.trans h.address, h'.dataLength.trans h.dataLength, h'.streamingWidth.trans h.streamingWidth, h'.beat.trans h.beat⟩

theorem sameShape_fillLane (tr : Transaction) (beat : Beat Byte) (i : ℕ) : tr.SameShape (tr.fillLane beat i) := by
  unfold fillLane
  split
  · split <;> exact ⟨rfl, rfl, rfl, rfl⟩
  · exact .refl tr

theorem Filled.fillLane (h : tr.Filled s d j) {beat : Beat Byte} {i : ℕ} (hs : beat.strb i = s j) (hd : beat.data i = d j) :
    (tr.fillLane beat i).Filled s d (j + 1) := by
  have hidx := h.idx
  unfold Transaction.fillLane
  by_cases hlt : tr.dataIdx < tr.gp.dataLength
  · obtain rfl : tr.dataIdx = j := by omega
    have hset : ∀ b : Byte, ∀ k < tr.dataIdx + 1,
        (tr.gp.byteEnable.set tr.dataIdx b)[k]? = if k = tr.dataIdx then some b else tr.gp.byteEnable[k]? := fun b k hk => by
      rw [List.getElem?_set]
      by_cases hkj : tr.dataIdx = k
      · rw [if_pos hkj, if_pos hkj.symm, if_pos (by rw [h.length]; omega)]
      · rw [if_neg hkj, if_neg (Ne.symm hkj)]
    have hnext : tr.dataIdx + 1 = min tr.gp.dataLength (tr.dataIdx + 1) := by omega
    rw [if_pos hlt]
    by_cases hstrb : beat.strb i = true
    · rw [if_pos hstrb]
      refine ⟨hnext, by simp [h.length], fun k hk => (hset _ k hk).trans ?_, fun k hk hsk => ?_⟩
      · split
        · rename_i hkj
          rw [hkj, ← hs, if_pos hstrb]
        · exact h.enables k (Nat.lt_of_le_of_ne (Nat.lt_succ_iff.1 hk) ‹_›)
      · rcases Nat.lt_succ_iff_lt_or_eq.1 hk with hk | rfl
        · exact (Function.update_of_ne hk.ne _ _).trans (h.bytes k hk hsk)
        · exact (Function.update_self ..).trans hd
    · rw [if_neg hstrb]
      refine ⟨hnext, by simp [h.length], fun k hk => (hset _ k hk).trans ?_, fun k hk hsk => ?_⟩
      · split
        · rename_i hkj
          rw [hkj, ← hs, if_neg hstrb]
        · exact h.enables k (Nat.lt_of_le_of_ne (Nat.lt_succ_iff.1 hk) ‹_›)
      · rcases Nat.lt_succ_iff_lt_or_eq.1 hk with hk | rfl
        · exact h.bytes k hk hsk
        · exact absurd (hs.trans hsk) hstrb
  · rw [if_neg hlt]
    exact ⟨by omega, h.length, h.enables, h.bytes⟩

theorem Filled.fillLanes {beat : Beat Byte} (m i0 : ℕ) (h : tr.Filled s d j)
    (hs : ∀ i < m, beat.strb (i0 + i) = s (j + i)) (hd : ∀ i < m, beat.data (i0 + i) = d (j + i)) :
    ((List.range' i0 m).foldl (fun tr i => tr.fillLane beat i) tr).Filled s d (j + m) ∧
      tr.SameShape ((List.range' i0 m).foldl (fun tr i => tr.fillLane beat i) tr) := by
  induction m generalizing tr i0 j with
  | zero => exact ⟨h, .refl tr⟩
  | succ m ih =>
    rw [List.range'_succ, List.foldl_cons]
    have hnext := h.fillLane (hs 0 (Nat.succ_pos m)) (hd 0 (Nat.succ_pos m))
    have hs' : ∀ i < m, beat.strb (i0 + 1 + i) = s (j + 1 + i) := fun i hi => by
      rw [Nat.add_assoc, Nat.add_assoc, Nat.add_comm 1 i]
      exact hs (i + 1) (by omega)
    have hd' : ∀ i < m, beat.data (i0 + 1 + i) = d (j + 1 + i) := fun i hi => by
      rw [Nat.add_assoc, Nat.add_assoc, Nat.add_comm 1 i]
      exact hd (i + 1) (by omega)
    obtain ⟨hfilled, hshape⟩ := ih (i0 + 1) hnext hs' hd'
    rw [Nat.add_assoc, Nat.add_comm 1 m] at hfilled
    exact ⟨hfilled, (sameShape_fillLane tr beat i0).trans hshape⟩

end Transaction

/-! ### The lanes of a burst in the order of the payload -/

namespace AddressPhase

variable (p : AddressPhase cfg)

/-- The lanes below the first byte, which the first beat skips. -/
def skip : ℕ := if p.burstType = .fixed then 0 else p.address.toNat % cfg.dataBusBytes

/-- The place in the payload where beat `n` starts. -/
def place (n : ℕ) : ℕ := n * cfg.dataBusBytes - p.skip

/-- The first lane of beat `n` that counts. -/
def first (n : ℕ) : ℕ := if n = 0 then p.skip else 0

/-- What `f` has for the beat and the lane of byte `k` of the payload. -/
def atPlace {α : Type*} (f : ℕ → ℕ → α) (k : ℕ) : α := f ((k + p.skip) / cfg.dataBusBytes) ((k + p.skip) % cfg.dataBusBytes)

theorem skip_lt : p.skip < cfg.dataBusBytes := by
  unfold skip
  split
  · exact cfg.bus_pos
  · exact Nat.mod_lt _ cfg.bus_pos

theorem place_zero : p.place 0 = 0 := by simp [place]

theorem place_mono : Monotone p.place := fun _ _ h => Nat.sub_le_sub_right (Nat.mul_le_mul_right _ h) _

theorem first_lt (n : ℕ) : p.first n < cfg.dataBusBytes := by
  unfold first
  split
  · exact p.skip_lt
  · exact cfg.bus_pos

theorem place_add_skip (n i : ℕ) : p.place n + i + p.skip = cfg.dataBusBytes * n + (p.first n + i) := by
  have hlt := p.skip_lt
  unfold place first
  rcases Nat.eq_zero_or_pos n with rfl | hpos
  · simp [Nat.add_comm]
  · have hle := Nat.le_mul_of_pos_left cfg.dataBusBytes hpos
    rw [if_neg hpos.ne', Nat.mul_comm cfg.dataBusBytes]
    omega

theorem place_succ (n : ℕ) : p.place (n + 1) = p.place n + (cfg.dataBusBytes - p.first n) := by
  have h1 := p.place_add_skip n 0
  have h2 := p.place_add_skip (n + 1) 0
  have hlt := p.first_lt n
  have hsucc : p.first (n + 1) = 0 := if_neg (Nat.succ_ne_zero n)
  rw [Nat.mul_succ] at h2
  omega

/-- The lanes of beat `n` follow each other in the payload. -/
theorem atPlace_add {α : Type*} (f : ℕ → ℕ → α) {n i : ℕ} (hi : i < cfg.dataBusBytes - p.first n) :
    p.atPlace f (p.place n + i) = f n (p.first n + i) := by
  have hlt : p.first n + i < cfg.dataBusBytes := by omega
  rw [atPlace, place_add_skip, Nat.mul_add_div cfg.bus_pos, Nat.mul_add_mod, Nat.div_eq_of_lt hlt, Nat.mod_eq_of_lt hlt, Nat.add_zero]

end AddressPhase

namespace Transaction

variable {p : AddressPhase cfg} {tr : Transaction} {strobe : ℕ → ℕ → Bool} {data : ℕ → ℕ → Byte}

theorem firstLane_eq (haddr : tr.gp.address.toNat % cfg.dataBusBytes = p.skip) {n : ℕ} (hbeat : tr.beat = n + 1) :
    tr.firstLane cfg = p.first n := by
  have hmod := Nat.div_add_mod' tr.gp.address.toNat cfg.dataBusBytes
  unfold firstLane AddressPhase.first align
  rw [hbeat]
  rcases Nat.eq_zero_or_pos n with rfl | hpos
  · rw [if_pos rfl, if_pos rfl]
    omega
  · rw [if_neg (by omega), if_neg hpos.ne']

theorem Filled.fillData {n : ℕ} (h : tr.Filled (p.atPlace strobe) (p.atPlace data) (p.place n))
    (haddr : tr.gp.address.toNat % cfg.dataBusBytes = p.skip) (hbeat : tr.beat = n + 1) :
    (tr.fillData cfg ⟨data n, strobe n⟩).Filled (p.atPlace strobe) (p.atPlace data) (p.place (n + 1)) ∧
      tr.SameShape (tr.fillData cfg ⟨data n, strobe n⟩) := by
  rw [Transaction.fillData, firstLane_eq haddr hbeat, p.place_succ]
  exact h.fillLanes _ _ (fun i hi => (p.atPlace_add strobe hi).symm) fun i hi => (p.atPlace_add data hi).symm

theorem Filled.fillBeats (k n : ℕ) (h : tr.Filled (p.atPlace strobe) (p.atPlace data) (p.place n))
    (haddr : tr.gp.address.toNat % cfg.dataBusBytes = p.skip) (hbeat : tr.beat = n + 1) {tr' : Transaction}
    (htr' : tr' = ((List.range' n k).map fun n => (⟨data n, strobe n⟩ : Beat Byte)).foldl (fun tr beat => (tr.fillData cfg beat).incBeat) tr) :
    tr'.Filled (p.atPlace strobe) (p.atPlace data) (p.place (n + k)) ∧ tr'.gp.address = tr.gp.address ∧
      tr'.gp.dataLength = tr.gp.dataLength ∧ tr'.gp.streamingWidth = tr.gp.streamingWidth := by
  induction k generalizing tr n with
  | zero =>
    subst htr'
    exact ⟨h, rfl, rfl, rfl⟩
  | succ k ih =>
    rw [List.range'_succ, List.map_cons, List.foldl_cons] at htr'
    obtain ⟨hfilled, hshape⟩ := h.fillData haddr hbeat
    have hnext : (tr.fillData cfg ⟨data n, strobe n⟩).incBeat.Filled (p.atPlace strobe) (p.atPlace data) (p.place (n + 1)) :=
      ⟨hfilled.idx, hfilled.length, hfilled.enables, hfilled.bytes⟩
    have haddr' : (tr.fillData cfg ⟨data n, strobe n⟩).incBeat.gp.address.toNat % cfg.dataBusBytes = p.skip := by
      rw [← haddr, ← hshape.address]
      rfl
    obtain ⟨hall, ha, hl, hs⟩ := ih (n + 1) hnext haddr' (congrArg (· + 1) (hshape.beat.trans hbeat)) htr'
    rw [Nat.add_assoc, Nat.add_comm 1 k] at hall
    exact ⟨hall, ha.trans hshape.address, hl.trans hshape.dataLength, hs.trans hshape.streamingWidth⟩

/-- Dropping the byte enables does not change which bytes are enabled. -/
theorem enabled_tryDropBE (tr : Transaction) (hlen : tr.gp.byteEnable.length = tr.gp.dataLength) {k : ℕ} (hk : k < tr.gp.dataLength) :
    tr.tryDropBE.gp.enabled k = decide (tr.gp.byteEnable[k]? = some byteEnabled) := by
  have hpos : tr.gp.byteEnable.isEmpty = false := by
    rw [List.isEmpty_eq_false_iff, ← List.length_pos_iff]
    omega
  unfold tryDropBE
  split
  · rename_i hall
    have hget := List.getElem?_eq_getElem (hlen.symm ▸ hk : k < tr.gp.byteEnable.length)
    have henabled := List.all_eq_true.1 hall _ (List.getElem_mem (hlen.symm ▸ hk : k < tr.gp.byteEnable.length))
    rw [hget, of_decide_eq_true henabled]
    rfl
  · rw [GenericPayload.enabled, hpos, hlen, Nat.mod_eq_of_lt hk, Bool.false_or]

theorem writes_tryDropBE_data (tr : Transaction) : tr.tryDropBE.gp.data = tr.gp.data := by
  unfold tryDropBE
  split <;> rfl

end Transaction

/-! ### What the two sides write -/

namespace AddressPhase

variable (p : AddressPhase cfg)

/-- The bytes of a beat. -/
abbrev numberBytes : ℕ := 2 ^ p.axsize

/-- The bytes of the payload. -/
def length : ℕ :=
  if p.burstType = .fixed then (p.axlen + 1) * cfg.dataBusBytes else (p.axlen + 1) * p.numberBytes - p.address.toNat % p.numberBytes

/-- The address of byte `k` of the payload. -/
def payloadAddr (k : ℕ) : ℕ :=
  if p.burstType = .fixed then alignDown p.address.toNat cfg.dataBusBytes + k % cfg.dataBusBytes else p.address.toNat + k

theorem numberBytes_dvd : p.numberBytes ∣ cfg.dataBusBytes := pow_dvd_pow 2 p.axsize_le

theorem numberBytes_pos : 0 < p.numberBytes := Nat.two_pow_pos _

theorem dataLength_ofPhase (cmd : Command) (withBe : Bool) (buf : Buffers) : (Transaction.ofPhase cmd withBe buf p).gp.dataLength = p.length := by
  have hmod := Nat.mod_lt p.address.toNat p.numberBytes_pos
  have hdiv := Nat.div_add_mod' p.address.toNat p.numberBytes
  unfold length
  cases hb : p.burstType with
  | fixed => simp [Transaction.ofPhase, hb]
  | incr | wrap =>
    simp only [numberBytes] at hmod hdiv ⊢
    simp only [Transaction.ofPhase, hb, getDataLen, align, reduceCtorEq, if_false, Nat.succ_mul, Nat.add_sub_cancel]
    omega

/-- The bytes left in a transfer are bytes left in its bus word. -/
theorem numberBytes_sub_le : p.numberBytes - p.address.toNat % p.numberBytes ≤ cfg.dataBusBytes - p.address.toNat % cfg.dataBusBytes := by
  have hle := alignDown_add_le_alignDown p.numberBytes_dvd cfg.bus_pos p.address.toNat
  have h1 := alignDown_add_mod p.address.toNat p.numberBytes
  have h2 := alignDown_add_mod p.address.toNat cfg.dataBusBytes
  omega

/-- The beats have lanes for all bytes of the payload. -/
theorem length_le_place : p.length ≤ p.place (p.axlen + 1) := by
  have hmodw := Nat.mod_lt p.address.toNat p.numberBytes_pos
  have hmodb := Nat.mod_lt p.address.toNat cfg.bus_pos
  have hsub := p.numberBytes_sub_le
  have hle : p.numberBytes ≤ cfg.dataBusBytes := Nat.le_of_dvd cfg.bus_pos p.numberBytes_dvd
  have hmul := Nat.mul_le_mul_left p.axlen hle
  unfold length place skip
  split
  · exact le_rfl
  · rw [Nat.succ_mul, Nat.succ_mul]
    omega

theorem byteAddr_ofPhase (cmd : Command) (withBe : Bool) (buf : Buffers) {k : ℕ} (hk : k < p.length) :
    (Transaction.ofPhase cmd withBe buf p).gp.byteAddr k = BitVec.ofNat 64 (p.payloadAddr k) := by
  have hlen := p.dataLength_ofPhase cmd withBe buf
  have hlt : alignDown p.address.toNat cfg.dataBusBytes < 2 ^ 64 := (alignDown_le _ _).trans_lt p.address.isLt
  rw [GenericPayload.byteAddr_eq, payloadAddr]
  cases hb : p.burstType with
  | fixed =>
    simp only [Transaction.ofPhase, hb, if_true, BitVec.toNat_ofNat]
    rw [show align p.address cfg.dataBusBytes = alignDown p.address.toNat cfg.dataBusBytes from rfl, Nat.mod_eq_of_lt hlt]
  | incr =>
    simp only [Transaction.ofPhase, hb, reduceCtorEq, if_false] at hlen ⊢
    rw [hlen, Nat.mod_eq_of_lt hk]
  | wrap =>
    have hle : p.length ≤ p.numberBytes * (p.axlen + 1) := by
      rw [length, hb, if_neg (by simp), Nat.mul_comm]
      exact Nat.sub_le _ _
    simp only [Transaction.ofPhase, hb, reduceCtorEq, if_false]
    rw [Nat.mod_eq_of_lt (hk.trans_le hle)]

theorem skip_ofPhase (cmd : Command) (withBe : Bool) (buf : Buffers) :
    (Transaction.ofPhase cmd withBe buf p).gp.address.toNat % cfg.dataBusBytes = p.skip := by
  have hlt : alignDown p.address.toNat cfg.dataBusBytes < 2 ^ 64 := (alignDown_le _ _).trans_lt p.address.isLt
  by_cases hb : p.burstType = .fixed
  · simp only [Transaction.ofPhase, hb, if_true, skip, BitVec.toNat_ofNat]
    rw [show align p.address cfg.dataBusBytes = alignDown p.address.toNat cfg.dataBusBytes from rfl, Nat.mod_eq_of_lt hlt]
    exact Nat.mod_eq_zero_of_dvd (dvd_alignDown _ _)
  · simp only [Transaction.ofPhase, skip, if_neg hb]

end AddressPhase

/-- What the payload of a write burst writes. -/
theorem WriteBurst.payload_writes (w : WriteBurst cfg) (buf : Buffers) (data : ℕ → ℕ → Byte) :
    ((Transaction.ofPhase .write true buf w.toAddressPhase).writeBeats cfg (w.beats data)).gp.writes =
      (List.range (w.place (w.axlen + 1))).filterMap fun k =>
        if k < w.length ∧ w.atPlace w.strobe k = true then some (BitVec.ofNat 64 (w.payloadAddr k), w.atPlace data k) else none := by
  have hlen := w.dataLength_ofPhase .write true buf
  have hstart : (Transaction.ofPhase .write true buf w.toAddressPhase).Filled (w.atPlace w.strobe) (w.atPlace data) (w.place 0) := by
    refine ⟨?_, ?_, fun k hk => absurd hk (Nat.not_lt_zero k), fun k hk => absurd hk (Nat.not_lt_zero k)⟩
    · rw [w.place_zero, Nat.min_zero]
      rfl
    · simp [Transaction.ofPhase]
  obtain ⟨hfilled, haddr, hlength, hsw⟩ := hstart.fillBeats (w.axlen + 1) 0 (w.skip_ofPhase .write true buf) rfl rfl
  set tr := ((List.range' 0 (w.axlen + 1)).map fun n => (⟨data n, w.strobe n⟩ : Beat Byte)).foldl
    (fun tr beat => (tr.fillData cfg beat).incBeat) (Transaction.ofPhase .write true buf w.toAddressPhase)
  have hidx : tr.dataIdx = w.length := by
    rw [hfilled.idx, hlength, hlen, Nat.zero_add]
    exact min_eq_left w.length_le_place
  have hdone : (Transaction.ofPhase .write true buf w.toAddressPhase).writeBeats cfg (w.beats data) = tr.tryDropBE := rfl
  have hgp : tr.tryDropBE.gp.dataLength = w.length ∧ ∀ k, tr.tryDropBE.gp.byteAddr k = (Transaction.ofPhase .write true buf w.toAddressPhase).gp.byteAddr k := by
    have hdrop : tr.tryDropBE.gp.dataLength = tr.gp.dataLength ∧ ∀ k, tr.tryDropBE.gp.byteAddr k = tr.gp.byteAddr k := by
      unfold Transaction.tryDropBE
      split <;> exact ⟨rfl, fun _ => rfl⟩
    refine ⟨hdrop.1.trans (hlength.trans hlen), fun k => (hdrop.2 k).trans ?_⟩
    rw [GenericPayload.byteAddr, GenericPayload.byteAddr, haddr, hsw]
  rw [hdone, GenericPayload.writes, hgp.1, filterMap_range_le _ w.length_le_place]
  refine List.filterMap_congr fun k _ => ?_
  by_cases hk : k < w.length
  · have hen := tr.enabled_tryDropBE hfilled.length (hk.trans_eq (hlength.trans hlen).symm)
    rw [hfilled.enables k (hidx ▸ hk)] at hen
    rw [if_pos hk, hgp.2, w.byteAddr_ofPhase _ _ _ hk, Transaction.writes_tryDropBE_data, hen]
    by_cases hs : w.atPlace w.strobe k = true
    · rw [if_pos hs, if_pos (decide_eq_true rfl), if_pos ⟨hk, hs⟩, hfilled.bytes k (hidx ▸ hk) hs]
    · have hno : ¬decide (some byteDisabled = some byteEnabled) = true := by decide
      rw [if_neg hs, if_neg hno, if_neg fun h => hs h.2]
  · rw [if_neg hk, if_neg fun h => hk h.1]

theorem WriteBurst.burst_writes (w : WriteBurst cfg) (data : ℕ → ℕ → Byte) :
    w.burst.writes cfg.dataBusBytes (w.beats data) =
      (List.range (w.place (w.axlen + 1))).filterMap fun k =>
        if w.atPlace w.strobe k = true then some (w.atPlace (w.burst.laneAddr cfg.dataBusBytes) k, w.atPlace data k) else none := by
  have hself : min (w.place (w.axlen + 1)) (w.place (w.axlen + 1)) = w.place (w.axlen + 1) := min_self _
  conv_rhs => rw [← hself]
  rw [filterMap_cuts _ w.place_zero w.place_mono, Burst.writes, WriteBurst.beats, Burst.writesFrom_map]
  refine List.flatMap_congr fun n hn => ?_
  rw [List.mem_range'_1] at hn
  have hn' : n < w.axlen + 1 := by omega
  have hfirst := w.first_lt n
  rw [min_eq_right (w.place_mono hn'.le), min_eq_right (w.place_mono hn'), w.place_succ, Nat.add_sub_cancel_left, Burst.beatWrites,
    filterMap_window (by omega : w.first n + (cfg.dataBusBytes - w.first n) ≤ cfg.dataBusBytes)]
  · refine List.filterMap_congr fun i hi => ?_
    rw [List.mem_range] at hi
    rw [w.atPlace_add _ hi, w.atPlace_add _ hi, w.atPlace_add _ hi]
    exact if_congr (and_iff_left_of_imp (w.active n _)) rfl rfl
  · intro l hl hout
    have hlo : l < w.first n := by omega
    refine if_neg fun h => ?_
    -- only the first beat skips lanes, and these lie below its address
    rcases Nat.eq_zero_or_pos n with rfl | hpos
    · have hle := h.2.1
      have hmod := alignDown_add_mod w.burst.addr cfg.dataBusBytes
      have hskip : w.skip ≤ w.burst.addr % cfg.dataBusBytes := by
        unfold AddressPhase.skip
        split
        · exact Nat.zero_le _
        · exact le_rfl
      have hzero : w.first 0 = w.skip := rfl
      rw [Burst.laneAddr, Burst.beatAddr_zero (Nat.mul_pos w.numberBytes_pos (Nat.succ_pos _))] at hle
      omega
    · rw [AddressPhase.first, if_neg hpos.ne'] at hlo
      exact absurd hlo (Nat.not_lt_zero l)

/-! ### Where a beat lands -/

namespace AddressPhase

variable (p : AddressPhase cfg)

/-- What the payload has for beat `n` is what AXI has: the burst is fixed, the beat is the first, or
it does not wrap and is as wide as the bus; a narrow second beat may also start the next bus word. -/
def Lands (n : ℕ) : Prop :=
  p.burstType = .fixed ∨ n = 0 ∨
    ¬(p.burstType = .wrap ∧ p.burst.wrapBoundary + p.burst.total ≤ p.burst.linearAddr n) ∧
      (p.numberBytes = cfg.dataBusBytes ∨ n = 1 ∧ cfg.dataBusBytes ≤ p.address.toNat % cfg.dataBusBytes + p.numberBytes)

variable {p}

theorem total_eq : p.burst.total = p.numberBytes * (p.axlen + 1) := rfl

/-- A beat lands when its bus word is the one the payload has for it. -/
theorem word_iff (hfix : p.burstType ≠ .fixed) {n : ℕ} (hn : n ≤ p.axlen) :
    alignDown (p.burst.beatAddr n) cfg.dataBusBytes = alignDown p.address.toNat cfg.dataBusBytes + n * cfg.dataBusBytes ↔ p.Lands n := by
  have htotal : 0 < p.burst.total := Nat.mul_pos p.numberBytes_pos (Nat.succ_pos _)
  unfold Lands
  rw [or_iff_right hfix]
  rcases Nat.eq_zero_or_pos n with rfl | hpos
  · rw [Burst.beatAddr_zero htotal, Nat.zero_mul, Nat.add_zero]
    exact iff_of_true rfl (.inl rfl)
  · rw [or_iff_right hpos.ne', Burst.beatAddr_of_ne_fixed hfix]
    split
    · rename_i hw
      refine iff_of_false (fun heq => ?_) fun h => h.1 hw
      have hlin := Burst.linearAddr_le (b := p.burst) n
      have hdown := alignDown_le (p.burst.linearAddr n - p.burst.total) cfg.dataBusBytes
      have hword := lt_alignDown_add p.address.toNat cfg.bus_pos
      have hbus := Nat.le_mul_of_pos_left cfg.dataBusBytes hpos
      have hmul : n * p.numberBytes ≤ p.burst.total := by
        rw [total_eq, Nat.mul_comm]
        exact Nat.mul_le_mul_left _ (by omega)
      have haddr : p.burst.addr = p.address.toNat := rfl
      have hsize : p.burst.size = p.numberBytes := rfl
      rw [haddr, hsize] at hlin
      omega
    · rename_i hw
      exact (Burst.linearAddr_word hpos p.numberBytes_dvd p.numberBytes_pos cfg.bus_pos).trans (and_iff_right hw).symm

theorem bus_le (cfg : Config) : cfg.dataBusBytes ≤ 128 := Nat.pow_le_pow_right two_pos cfg.busBits_le

theorem axlen_le (p : AddressPhase cfg) : p.axlen + 1 ≤ 256 := by
  have hlt := p.axlen_lt
  have hmax : cfg.proto.maxBurstLength ≤ 256 := by cases cfg.proto <;> simp [Axi.Protocol.maxBurstLength]
  omega

/-- The lanes that are skipped are not active. -/
theorem skip_le {n l : ℕ} (hactive : p.burst.Active cfg.dataBusBytes n l) : p.skip ≤ n * cfg.dataBusBytes + l := by
  have hlt := p.skip_lt
  rcases Nat.eq_zero_or_pos n with rfl | hpos
  · have hle := hactive.1
    have haddr : p.burst.addr = p.address.toNat := rfl
    have hmod := alignDown_add_mod p.address.toNat cfg.dataBusBytes
    rw [Burst.laneAddr, Burst.beatAddr_zero (Nat.mul_pos p.numberBytes_pos (Nat.succ_pos _)), haddr] at hle
    unfold skip
    split <;> omega
  · have := Nat.le_mul_of_pos_left cfg.dataBusBytes hpos
    omega

/-- An active lane has its byte in the payload, at its address, exactly when the beat lands. -/
theorem lane_iff {n l : ℕ} (hn : n ≤ p.axlen) (hactive : p.burst.Active cfg.dataBusBytes n l) :
    (n * cfg.dataBusBytes + l - p.skip < p.length ∧
        BitVec.ofNat 64 (p.payloadAddr (n * cfg.dataBusBytes + l - p.skip)) = BitVec.ofNat 64 (p.burst.laneAddr cfg.dataBusBytes n l)) ↔
      p.Lands n := by
  have hl := hactive.lt p.numberBytes_dvd cfg.bus_pos
  have hbound := bus_le cfg
  have hlen := axlen_le p
  by_cases hfix : p.burstType = .fixed
  · have hskip : p.skip = 0 := if_pos hfix
    have hbeat : p.burst.beatAddr n = p.address.toNat := by simp [Burst.beatAddr, burst, hfix]
    refine iff_of_true ?_ (.inl hfix)
    rw [hskip, Nat.sub_zero, length, if_pos hfix, payloadAddr, if_pos hfix, Burst.laneAddr, hbeat, Nat.mul_comm n, Nat.mul_add_mod,
      Nat.mod_eq_of_lt hl]
    refine ⟨?_, rfl⟩
    have hmul := Nat.mul_le_mul_left cfg.dataBusBytes hn
    rw [Nat.succ_mul, Nat.mul_comm p.axlen]
    omega
  · have hskip : p.skip = p.address.toNat % cfg.dataBusBytes := if_neg hfix
    have hmod := alignDown_add_mod p.address.toNat cfg.dataBusBytes
    have hmodw := alignDown_add_mod p.address.toNat p.numberBytes
    have hdown := alignDown_le (p.burst.beatAddr n) cfg.dataBusBytes
    have hword := lt_alignDown_add (p.burst.beatAddr n) cfg.bus_pos
    have hlin := Burst.linearAddr_le (b := p.burst) n
    have htotal : p.burst.total ≤ 128 * 256 := Nat.mul_le_mul ((Nat.le_of_dvd cfg.bus_pos p.numberBytes_dvd).trans hbound) hlen
    have hbeat := Burst.beatAddr_of_ne_fixed (b := p.burst) hfix n
    have hmul : n * cfg.dataBusBytes ≤ 256 * 128 := Nat.mul_le_mul (by omega) hbound
    have hmulw : n * p.numberBytes ≤ n * cfg.dataBusBytes := Nat.mul_le_mul_left n (Nat.le_of_dvd cfg.bus_pos p.numberBytes_dvd)
    have haddr : p.burst.addr = p.address.toNat := rfl
    have hsize : p.burst.size = p.numberBytes := rfl
    rw [haddr, hsize] at hlin
    -- the byte's address, had the beat the payload's bus word
    have hplace : p.address.toNat + (n * cfg.dataBusBytes + l - p.skip) =
        alignDown p.address.toNat cfg.dataBusBytes + n * cfg.dataBusBytes + l := by
      have := skip_le hactive
      omega
    have hle : p.burst.beatAddr n ≤ p.burst.linearAddr n := by
      rw [hbeat]
      split <;> omega
    have hge : p.burst.linearAddr n ≤ p.burst.beatAddr n + p.burst.total := by
      rw [hbeat]
      split <;> omega
    have hbase : alignDown p.address.toNat p.numberBytes ≤ p.burst.linearAddr n := by
      unfold Burst.linearAddr
      rw [haddr, hsize]
      split <;> omega
    rw [← word_iff hfix hn, payloadAddr, if_neg hfix, hplace, Burst.laneAddr]
    refine ⟨fun h => ?_, fun heq => ⟨?_, by rw [heq]⟩⟩
    · have heq := congrArg BitVec.toNat h.2
      have hmodw := Nat.mod_lt p.address.toNat p.numberBytes_pos
      have hnb := Nat.le_of_dvd cfg.bus_pos p.numberBytes_dvd
      rw [BitVec.toNat_ofNat, BitVec.toNat_ofNat] at heq
      omega
    · have hend := hactive.2
      rw [Burst.laneAddr, heq, hsize, ← hplace] at hend
      have hlast : alignDown (p.burst.beatAddr n) p.numberBytes ≤ alignDown p.address.toNat p.numberBytes + n * p.numberBytes := by
        have hdvd : p.numberBytes ∣ alignDown p.address.toNat p.numberBytes + n * p.numberBytes :=
          Nat.dvd_add (dvd_alignDown _ _) (Nat.dvd_mul_left _ _)
        have hover := lt_alignDown_add p.address.toNat p.numberBytes_pos
        by_contra hgt
        have := alignDown_add_le (dvd_alignDown (p.burst.beatAddr n) p.numberBytes) (not_le.1 hgt)
        rw [alignDown_self hdvd] at this
        have := alignDown_le (p.burst.beatAddr n) p.numberBytes
        omega
      have hmulN := Nat.mul_le_mul_right p.numberBytes hn
      rw [length, if_neg hfix, Nat.succ_mul]
      omega

end AddressPhase

/-- A write burst is reconstructed when each beat with a strobe lands. -/
theorem WriteBurst.writeOk_iff (w : WriteBurst cfg) : WriteOk cfg w ↔ ∀ n ≤ w.axlen, ∀ l, w.strobe n l = true → w.Lands n := by
  have : Nontrivial Byte := ⟨0, 1, by simp⟩
  -- the bytes of the lanes and the bytes at the places of the payload stand for each other
  have hlists : WriteOk cfg w ↔ ∀ d : ℕ → Byte,
      ((List.range (w.place (w.axlen + 1))).filterMap fun k =>
          if k < w.length ∧ w.atPlace w.strobe k = true then some (BitVec.ofNat 64 (w.payloadAddr k), d k) else none) =
        (List.range (w.place (w.axlen + 1))).filterMap fun k =>
          if w.atPlace w.strobe k = true then some (BitVec.ofNat 64 (w.atPlace (w.burst.laneAddr cfg.dataBusBytes) k), d k) else none := by
    have hmap : ∀ data : ℕ → ℕ → Byte, (w.burst.writes cfg.dataBusBytes (w.beats data)).map (Prod.map (BitVec.ofNat 64) id) =
        (List.range (w.place (w.axlen + 1))).filterMap fun k =>
          if w.atPlace w.strobe k = true then
            some (BitVec.ofNat 64 (w.atPlace (w.burst.laneAddr cfg.dataBusBytes) k), w.atPlace data k) else none := fun data => by
      rw [w.burst_writes, List.map_filterMap]
      refine List.filterMap_congr fun k _ => ?_
      rw [apply_ite (Option.map _)]
      rfl
    refine ⟨fun h d => ?_, fun h buf data => ?_⟩
    · have hd : w.atPlace (fun n l => d (n * cfg.dataBusBytes + l - w.skip)) = d := funext fun k => by
        rw [AddressPhase.atPlace, Nat.div_add_mod', Nat.add_sub_cancel]
      have hall := h ⟨fun _ => 0, fun _ => 0⟩ fun n l => d (n * cfg.dataBusBytes + l - w.skip)
      rw [w.payload_writes, hmap, hd] at hall
      exact hall
    · rw [w.payload_writes, hmap]
      exact h _
  rw [hlists, filterMap_eq_iff]
  refine ⟨fun h n hn l hs => ?_, fun h k hk => ?_⟩
  · have hactive := w.active n l hs
    have hle := AddressPhase.skip_le hactive
    have hl := hactive.lt w.numberBytes_dvd cfg.bus_pos
    have hplace : ∀ {α : Type} (f : ℕ → ℕ → α), w.atPlace f (n * cfg.dataBusBytes + l - w.skip) = f n l := fun f => by
      rw [AddressPhase.atPlace, Nat.sub_add_cancel hle, Nat.mul_comm, Nat.mul_add_div cfg.bus_pos, Nat.mul_add_mod, Nat.div_eq_of_lt hl,
        Nat.mod_eq_of_lt hl, Nat.add_zero]
    have hmem : n * cfg.dataBusBytes + l - w.skip ∈ List.range (w.place (w.axlen + 1)) := by
      have := Nat.mul_le_mul_right cfg.dataBusBytes hn
      rw [List.mem_range, AddressPhase.place, Nat.succ_mul]
      omega
    obtain ⟨hlen, haddr⟩ := h _ hmem
    rw [hplace] at hlen haddr
    exact (AddressPhase.lane_iff hn hactive).1 ⟨(hlen.2 hs).1, hplace (w.burst.laneAddr cfg.dataBusBytes) ▸ haddr hs⟩
  · rw [List.mem_range, AddressPhase.place] at hk
    have hlt : (k + w.skip) / cfg.dataBusBytes < w.axlen + 1 := (Nat.div_lt_iff_lt_mul cfg.bus_pos).2 (by omega)
    have hn : (k + w.skip) / cfg.dataBusBytes ≤ w.axlen := Nat.lt_succ_iff.1 hlt
    have hkey : w.atPlace w.strobe k = true → k < w.length ∧
        BitVec.ofNat 64 (w.payloadAddr k) = BitVec.ofNat 64 (w.atPlace (w.burst.laneAddr cfg.dataBusBytes) k) := fun hs => by
      have hlane := (AddressPhase.lane_iff hn (w.active _ _ hs)).2 (h _ hn _ hs)
      rwa [Nat.div_add_mod', Nat.add_sub_cancel] at hlane
    exact ⟨and_iff_right_of_imp fun hs => (hkey hs).1, fun hs => (hkey hs).2⟩

end LibSystemCTLM.Axi2Tlm
