import LibSystemCTLM.Axi.Axi2TlmBursts

/-!
# Which bursts `axi2tlm_bridge` carries

`GetData` counts lanes as AXI does, so the payload of a read burst comes back in order on the active
lanes of its beats, unless the burst wraps. With the write side this gives the exact bursts that are
carried (`bursts_iff`): a write burst whose beats are narrower than the bus loses what comes after
its first beat (`not_writeOk`).
-/

namespace LibSystemCTLM.Axi2Tlm

open Foundation Tlm

variable {cfg : Config}

/-! ### The lanes of a read beat -/

namespace Transaction

/-- The lanes that are set, and how far the payload is read. -/
theorem foldl_getLane (tr : Transaction) (rdata : ℕ → Byte) (idx m : ℕ) :
    (List.range m).foldl (tr.getLane cfg) (rdata, idx) =
      (fun l => if (tr.lanes cfg).1 ≤ l ∧ l < min m (tr.lanes cfg).2 then tr.gp.data (idx + (l - (tr.lanes cfg).1)) else rdata l,
        idx + (min m (tr.lanes cfg).2 - (tr.lanes cfg).1)) := by
  induction m with
  | zero => simp
  | succ m ih =>
    rw [List.range_succ, List.foldl_append, ih, List.foldl_cons, List.foldl_nil, getLane]
    by_cases hm : (tr.lanes cfg).1 ≤ m ∧ m < (tr.lanes cfg).2
    · rw [if_pos hm]
      refine Prod.ext (funext fun l => ?_) ?_ <;> dsimp only
      · by_cases hl : l = m
        · subst hl
          rw [Function.update_self, if_pos (by omega)]
          congr 1
          omega
        · rw [Function.update_of_ne hl]
          refine if_congr ?_ rfl rfl
          omega
      · omega
    · rw [if_neg hm]
      refine Prod.ext (funext fun l => if_congr ?_ rfl rfl) ?_
      · omega
      · dsimp only
        omega

end Transaction

namespace AddressPhase

variable (p : AddressPhase cfg)

/-- The place in the payload where beat `n` of a read starts. -/
def readPlace (n : ℕ) : ℕ := if p.burstType = .fixed then n * cfg.dataBusBytes else n * p.numberBytes - p.address.toNat % p.numberBytes

theorem readPlace_mono : Monotone p.readPlace := by
  intro m n hmn
  unfold readPlace
  split
  · exact Nat.mul_le_mul_right _ hmn
  · exact Nat.sub_le_sub_right (Nat.mul_le_mul_right _ hmn) _

theorem readPlace_last : p.readPlace (p.axlen + 1) = p.length := rfl

/-- The address of a beat that does not wrap is that of its first byte of the payload. -/
theorem linearAddr_eq (hfix : p.burstType ≠ .fixed) (n : ℕ) : p.burst.linearAddr n = p.address.toNat + p.readPlace n := by
  have haddr : p.burst.addr = p.address.toNat := rfl
  have hsize : p.burst.size = p.numberBytes := rfl
  have hmod := alignDown_add_mod p.address.toNat p.numberBytes
  have hlt := Nat.mod_lt p.address.toNat p.numberBytes_pos
  rw [readPlace, if_neg hfix]
  rcases Nat.eq_zero_or_pos n with rfl | hpos
  · rw [Burst.linearAddr, if_pos rfl, haddr]
    omega
  · have := Nat.le_mul_of_pos_left p.numberBytes hpos
    rw [Burst.linearAddr_of_pos hpos, haddr, hsize]
    omega

/-- How many bytes beat `n` carries. -/
theorem readPlace_succ (hfix : p.burstType ≠ .fixed) (n : ℕ) :
    p.readPlace (n + 1) = p.readPlace n + (p.numberBytes - p.burst.linearAddr n % p.numberBytes) := by
  have hlt := Nat.mod_lt p.address.toNat p.numberBytes_pos
  have haddr : p.burst.addr = p.address.toNat := rfl
  have hsize : p.burst.size = p.numberBytes := rfl
  rcases Nat.eq_zero_or_pos n with rfl | hpos
  · rw [Burst.linearAddr, if_pos rfl, haddr, readPlace, readPlace, if_neg hfix, if_neg hfix]
    omega
  · have hdvd : p.burst.linearAddr n % p.numberBytes = 0 := by
      rw [Burst.linearAddr_of_pos hpos, hsize]
      exact Nat.mod_eq_zero_of_dvd (Nat.dvd_add (dvd_alignDown _ _) (Nat.dvd_mul_left _ _))
    have := Nat.le_mul_of_pos_left p.numberBytes hpos
    rw [hdvd, readPlace, readPlace, if_neg hfix, if_neg hfix, Nat.succ_mul]
    omega

variable {p}

/-- The lanes of beat `n`: those of the whole bus, or from the beat's address to the end of its transfer. -/
theorem lanes_eq {tr : Transaction} {buf : Buffers} {n : ℕ} (hgp : tr.gp = (Transaction.ofPhase .read false buf p).gp)
    (hwidth : tr.burstWidth = p.numberBytes) (htype : tr.burstType = p.burstType) (hbeat : tr.beat = n + 1) :
    tr.lanes cfg =
      if p.burstType = .fixed then (0, cfg.dataBusBytes)
      else (p.burst.linearAddr n % cfg.dataBusBytes,
        p.burst.linearAddr n % cfg.dataBusBytes + (p.numberBytes - p.burst.linearAddr n % p.numberBytes)) := by
  unfold Transaction.lanes
  rw [htype, hbeat, hwidth, hgp]
  by_cases hfix : p.burstType = .fixed
  · rw [if_pos hfix, if_pos hfix]
  · have haddr : (Transaction.ofPhase .read false buf p).gp.address = p.address := by
      simp only [Transaction.ofPhase, if_neg hfix]
    have hbaddr : p.burst.addr = p.address.toNat := rfl
    have hsize : p.burst.size = p.numberBytes := rfl
    have hpos := p.numberBytes_pos
    rw [if_neg hfix, if_neg hfix, haddr]
    rcases Nat.eq_zero_or_pos n with rfl | hn
    · have hmod := alignDown_add_mod p.address.toNat cfg.dataBusBytes
      have hmodw := alignDown_add_mod p.address.toNat p.numberBytes
      have hlt := Nat.mod_lt p.address.toNat hpos
      have hle := alignDown_le_alignDown p.numberBytes_dvd p.address.toNat
      rw [if_pos rfl, Burst.linearAddr, if_pos rfl, hbaddr, show align p.address p.numberBytes = alignDown p.address.toNat p.numberBytes from rfl]
      refine Prod.ext ?_ ?_ <;> dsimp only <;> omega
    · have hlin : p.burst.linearAddr n = align p.address p.numberBytes + (n + 1 - 1) * p.numberBytes := Burst.linearAddr_of_pos hn
      have hdvd : p.burst.linearAddr n % p.numberBytes = 0 := by
        rw [Burst.linearAddr_of_pos hn, hsize]
        exact Nat.mod_eq_zero_of_dvd (Nat.dvd_add (dvd_alignDown _ _) (Nat.dvd_mul_left _ _))
      have hbus := Nat.mod_mod_of_dvd (p.burst.linearAddr n) cfg.bus_dvd
      have hmod := alignDown_add_mod (p.burst.linearAddr n % 2 ^ 64) cfg.dataBusBytes
      rw [if_neg (by omega), ← hlin]
      refine Prod.ext ?_ ?_ <;> dsimp only <;> omega

end AddressPhase

/-! ### The beats of a read -/

variable {p : AddressPhase cfg}

/-- The transaction of a read before beat `n`. -/
structure AtBeat (p : AddressPhase cfg) (buf : Buffers) (n : ℕ) (tr : Transaction) : Prop where
  gp : tr.gp = (Transaction.ofPhase .read false buf p).gp
  width : tr.burstWidth = p.numberBytes
  burstType : tr.burstType = p.burstType
  beat : tr.beat = n + 1
  dataIdx : tr.dataIdx = p.readPlace n

/-- Byte `k` of the payload and its address. -/
def entry (p : AddressPhase cfg) (buf : Buffers) (k : ℕ) : Addr × Byte :=
  ((Transaction.ofPhase .read false buf p).gp.byteAddr k, (Transaction.ofPhase .read false buf p).gp.data k)

/-- The lanes of a transfer end on the bus. -/
theorem AddressPhase.lanes_le (p : AddressPhase cfg) (a : ℕ) : a % cfg.dataBusBytes + (p.numberBytes - a % p.numberBytes) ≤ cfg.dataBusBytes := by
  have hend := alignDown_add_le_alignDown p.numberBytes_dvd cfg.bus_pos a
  have hmod := alignDown_add_mod a cfg.dataBusBytes
  have hmodw := alignDown_add_mod a p.numberBytes
  have hlt := Nat.mod_lt a p.numberBytes_pos
  omega

namespace AtBeat

variable {buf : Buffers} {n : ℕ} {tr : Transaction}

/-- `GetData` goes on to the next beat. -/
theorem next (h : AtBeat p buf n tr) (rdata : ℕ → Byte) : AtBeat p buf (n + 1) (tr.getData cfg rdata).2.incBeat := by
  refine ⟨h.gp, h.width, h.burstType, congrArg (· + 1) h.beat, ?_⟩
  have hidx : (tr.getData cfg rdata).2.incBeat.dataIdx = tr.dataIdx + (min cfg.dataBusBytes (tr.lanes cfg).2 - (tr.lanes cfg).1) :=
    congrArg Prod.snd (tr.foldl_getLane rdata tr.dataIdx cfg.dataBusBytes)
  rw [hidx, h.dataIdx, AddressPhase.lanes_eq h.gp h.width h.burstType h.beat]
  by_cases hfix : p.burstType = .fixed
  · simp only [if_pos hfix, AddressPhase.readPlace, Nat.succ_mul]
    omega
  · have hle := p.lanes_le (p.burst.linearAddr n)
    rw [if_neg hfix, p.readPlace_succ hfix, min_eq_right hle, Nat.add_sub_cancel_left]

/-- What `GetData` leaves on the lanes it sets. -/
theorem getData_fst (h : AtBeat p buf n tr) (rdata : ℕ → Byte) {l : ℕ} (hl : (tr.lanes cfg).1 ≤ l ∧ l < min cfg.dataBusBytes (tr.lanes cfg).2) :
    (tr.getData cfg rdata).1 l = (Transaction.ofPhase .read false buf p).gp.data (p.readPlace n + (l - (tr.lanes cfg).1)) := by
  have hfst : (tr.getData cfg rdata).1 = fun l =>
      if (tr.lanes cfg).1 ≤ l ∧ l < min cfg.dataBusBytes (tr.lanes cfg).2 then tr.gp.data (tr.dataIdx + (l - (tr.lanes cfg).1)) else rdata l :=
    congrArg Prod.fst (tr.foldl_getLane rdata tr.dataIdx cfg.dataBusBytes)
  rw [hfst, ← h.dataIdx, ← h.gp]
  exact if_pos hl

/-- A beat at its place carries its bytes of the payload. -/
theorem beatWrites_sublist (h : AtBeat p buf n tr) (rdata : ℕ → Byte) (hn : n ≤ p.axlen)
    (hlin : p.burstType = .fixed ∨ p.burst.beatAddr n = p.burst.linearAddr n) :
    ((p.burst.beatWrites cfg.dataBusBytes n ⟨(tr.getData cfg rdata).1, fun _ => true⟩).map (Prod.map (BitVec.ofNat 64) id)).Sublist
      ((List.range (p.readPlace (n + 1) - p.readPlace n)).map fun i => entry p buf (p.readPlace n + i)) := by
  have hlast : p.readPlace (n + 1) ≤ p.length := p.readPlace_last ▸ p.readPlace_mono (Nat.succ_le_succ hn)
  have hlanes := AddressPhase.lanes_eq h.gp h.width h.burstType h.beat
  by_cases hfix : p.burstType = .fixed
  · have hbeat : p.burst.beatAddr n = p.address.toNat := by simp [Burst.beatAddr, AddressPhase.burst, hfix]
    have hplace : p.readPlace (n + 1) - p.readPlace n = cfg.dataBusBytes := by
      simp only [AddressPhase.readPlace, if_pos hfix, Nat.succ_mul]
      omega
    rw [if_pos hfix] at hlanes
    have hentry : ((List.range cfg.dataBusBytes).map fun l => (p.burst.laneAddr cfg.dataBusBytes n l, (tr.getData cfg rdata).1 l)).map
        (Prod.map (BitVec.ofNat 64) id) = (List.range cfg.dataBusBytes).map fun i => entry p buf (p.readPlace n + i) := by
      rw [List.map_map]
      refine List.map_congr_left fun l hl => ?_
      rw [List.mem_range] at hl
      have hk : p.readPlace n + l < p.length := by omega
      have hdata := h.getData_fst rdata (l := l) (by rw [hlanes]; exact ⟨Nat.zero_le l, lt_min hl hl⟩)
      rw [hlanes, Nat.sub_zero] at hdata
      refine Prod.ext ?_ hdata
      refine Eq.trans ?_ (p.byteAddr_ofPhase .read false buf hk).symm
      rw [AddressPhase.payloadAddr, if_pos hfix, AddressPhase.readPlace, if_pos hfix, Nat.mul_comm, Nat.mul_add_mod, Nat.mod_eq_of_lt hl,
        ← hbeat]
      rfl
    rw [hplace, ← hentry]
    exact (filterMap_sublist_map _ _ _).map _
  · have hle := p.lanes_le (p.burst.linearAddr n)
    have hsize : p.burst.size = p.numberBytes := rfl
    rw [if_neg hfix] at hlanes
    rw [Burst.beatWrites_linear _ _ (hlin.resolve_left hfix) p.numberBytes_dvd p.numberBytes_pos cfg.bus_pos, p.readPlace_succ hfix,
      Nat.add_sub_cancel_left, List.map_map]
    have hmap : ∀ i ∈ List.range (p.burst.size - p.burst.linearAddr n % p.burst.size),
        Prod.map (BitVec.ofNat 64) id (p.burst.linearAddr n + i, (tr.getData cfg rdata).1 (p.burst.linearAddr n % cfg.dataBusBytes + i)) =
          entry p buf (p.readPlace n + i) := fun i hi => by
      rw [List.mem_range, hsize] at hi
      have hk : p.readPlace n + i < p.length := by
        have := p.readPlace_succ hfix n
        omega
      have hdata := h.getData_fst rdata (l := p.burst.linearAddr n % cfg.dataBusBytes + i) (by
        rw [hlanes]
        exact ⟨Nat.le_add_right _ _, lt_min (by omega) (Nat.add_lt_add_left hi _)⟩)
      rw [hlanes, Nat.add_sub_cancel_left] at hdata
      refine Prod.ext ?_ hdata
      refine Eq.trans ?_ (p.byteAddr_ofPhase .read false buf hk).symm
      rw [AddressPhase.payloadAddr, if_neg hfix, ← Nat.add_assoc, ← p.linearAddr_eq hfix]
      rfl
    rw [hsize] at hmap ⊢
    exact (List.map_congr_left hmap).symm ▸ List.Sublist.refl _

/-- The beats from beat `n` on carry the payload from there on. -/
theorem readBeats_sublist (left n : ℕ) {tr : Transaction} (h : AtBeat p buf n tr) (rdata : ℕ → Byte) (hn : n + left = p.axlen + 1)
    (hlin : ∀ m ≤ p.axlen, p.burstType = .fixed ∨ p.burst.beatAddr m = p.burst.linearAddr m) :
    ((p.burst.writesFrom cfg.dataBusBytes n
        ((tr.readBeats cfg left rdata).map fun lanes => (⟨lanes, fun _ => true⟩ : Beat Byte))).map (Prod.map (BitVec.ofNat 64) id)).Sublist
      ((List.range (p.length - p.readPlace n)).map fun i => entry p buf (p.readPlace n + i)) := by
  induction left generalizing n tr rdata with
  | zero => exact List.nil_sublist _
  | succ left ih =>
    have hrest := ih (n + 1) (h.next rdata) (tr.getData cfg rdata).1 (by omega)
    have hbeat := h.beatWrites_sublist rdata (by omega) (hlin n (by omega))
    have hle : p.readPlace n ≤ p.readPlace (n + 1) := p.readPlace_mono (Nat.le_succ n)
    have hlast : p.readPlace (n + 1) ≤ p.length := p.readPlace_last ▸ p.readPlace_mono (by omega)
    have hcut : p.length - p.readPlace n = p.readPlace (n + 1) - p.readPlace n + (p.length - p.readPlace (n + 1)) := by omega
    rw [hcut, List.range_add, List.map_append, List.map_map]
    rw [Transaction.readBeats, List.map_cons, Burst.writesFrom, List.map_append]
    have hmap : ((List.range (p.length - p.readPlace (n + 1))).map fun i => entry p buf (p.readPlace (n + 1) + i)) =
        (List.range (p.length - p.readPlace (n + 1))).map ((fun i => entry p buf (p.readPlace n + i)) ∘ (p.readPlace (n + 1) - p.readPlace n + ·)) :=
      List.map_congr_left fun i _ => by rw [Function.comp, ← Nat.add_assoc, Nat.add_sub_cancel' hle]
    exact hbeat.append (hmap ▸ hrest)

end AtBeat

theorem length_readBeats (left : ℕ) (tr : Transaction) (rdata : ℕ → Byte) : (tr.readBeats cfg left rdata).length = left := by
  induction left generalizing tr rdata with
  | zero => rfl
  | succ left ih => exact congrArg (· + 1) (ih _ _)

/-! ### The bursts that are carried -/

/-- A wrapping burst has no beat that wraps when it starts in the first transfer of its block. -/
theorem AddressPhase.wraps_iff (p : AddressPhase cfg) :
    (∀ n ≤ p.axlen, ¬p.burst.wrapBoundary + p.burst.total ≤ p.burst.linearAddr n) ↔ p.address.toNat % p.burst.total < p.numberBytes := by
  have haddr : p.burst.addr = p.address.toNat := rfl
  have hsize : p.burst.size = p.numberBytes := rfl
  have hmod : p.burst.wrapBoundary + p.address.toNat % p.burst.total = p.address.toNat := alignDown_add_mod _ _
  have htotal : p.burst.total = p.axlen * p.numberBytes + p.numberBytes := by rw [AddressPhase.total_eq, Nat.mul_comm, Nat.succ_mul]
  have hltotal : p.address.toNat % p.burst.total < p.burst.total := Nat.mod_lt _ (Nat.mul_pos p.numberBytes_pos (Nat.succ_pos _))
  have hdvd : p.numberBytes ∣ p.burst.wrapBoundary + p.numberBytes :=
    Nat.dvd_add ((Nat.dvd_mul_right _ _ : p.numberBytes ∣ p.burst.total).trans (dvd_alignDown _ _)) (Nat.dvd_refl _)
  have hlin : ∀ n, 0 < n → p.burst.linearAddr n = alignDown p.address.toNat p.numberBytes + n * p.numberBytes := fun n hn => by
    rw [Burst.linearAddr_of_pos hn, haddr, hsize]
  refine ⟨fun h => ?_, fun hlt n hn hw => ?_⟩
  · by_contra hge
    have hle := (le_alignDown_iff hdvd).2 (by omega : p.burst.wrapBoundary + p.numberBytes ≤ p.address.toNat)
    rcases Nat.eq_zero_or_pos p.axlen with hzero | hpos
    · rw [hzero, Nat.zero_mul] at htotal
      omega
    · refine h p.axlen le_rfl ?_
      rw [hlin _ hpos]
      omega
  · have hlast : alignDown p.address.toNat p.numberBytes ≤ p.burst.wrapBoundary := by
      by_contra hgt
      have hbelow : p.burst.wrapBoundary + p.numberBytes ≤ alignDown p.address.toNat p.numberBytes := by
        have hdvd' : p.numberBytes ∣ p.burst.wrapBoundary := (Nat.dvd_add_left (Nat.dvd_refl _)).1 hdvd
        have := alignDown_add_le (dvd_alignDown p.address.toNat p.numberBytes) (not_le.1 hgt)
        rwa [alignDown_self hdvd'] at this
      have := alignDown_le p.address.toNat p.numberBytes
      omega
    rcases Nat.eq_zero_or_pos n with rfl | hpos
    · rw [Burst.linearAddr, if_pos rfl, haddr] at hw
      omega
    · have := Nat.mul_le_mul_right p.numberBytes hn
      rw [hlin _ hpos] at hw
      omega

/-- A read burst is carried unless it wraps. -/
theorem AddressPhase.readOk_iff (p : AddressPhase cfg) :
    ReadOk cfg p ↔ (p.burstType = .wrap → p.address.toNat % p.burst.total < p.numberBytes) := by
  refine ⟨fun h hwrap => ?_, fun h buf rdata => ?_⟩
  · rw [← p.wraps_iff]
    intro n hn hw
    have hfix : p.burstType ≠ .fixed := by simp [hwrap]
    have hbeat : p.burst.beatAddr n = p.burst.linearAddr n - p.burst.total := by
      rw [Burst.beatAddr_of_ne_fixed hfix]
      exact if_pos ⟨hwrap, hw⟩
    -- the first lane of the beat that wraps
    have hsub := h ⟨fun _ => 0, fun _ => 0⟩ fun _ => 0
    set tr := Transaction.ofPhase .read false ⟨fun _ => 0, fun _ => 0⟩ p
    have hlt : n < (tr.readBeats cfg (p.axlen + 1) fun _ => 0).length := by
      rw [length_readBeats]
      omega
    have hget : ((tr.readBeats cfg (p.axlen + 1) fun _ => 0).map fun lanes => (⟨lanes, fun _ => true⟩ : Beat Byte))[n]? =
        some ⟨(tr.readBeats cfg (p.axlen + 1) fun _ => 0).get ⟨n, hlt⟩, fun _ => true⟩ := by
      rw [List.getElem?_map, List.getElem?_eq_getElem hlt]
      rfl
    obtain ⟨hlane, hactive⟩ := Burst.active_of_div_eq (b := p.burst) (n := n) (x := p.burst.beatAddr n) p.numberBytes_pos le_rfl rfl
      (rfl : p.burst.beatAddr n / cfg.dataBusBytes = p.burst.beatAddr n / cfg.dataBusBytes)
    have hmem := p.burst.mem_writesFrom cfg.dataBusBytes (n := 0) hget
      (List.mem_filterMap.2 ⟨p.burst.beatAddr n % cfg.dataBusBytes, List.mem_range.2 (Nat.mod_lt _ cfg.bus_pos), if_pos ⟨rfl, by rwa [Nat.zero_add]⟩⟩)
    obtain ⟨k, hk, hentry⟩ := List.mem_map.1 (hsub.subset (List.mem_map_of_mem hmem))
    have hlen := p.dataLength_ofPhase .read false ⟨fun _ => 0, fun _ => 0⟩
    rw [List.mem_range, hlen] at hk
    have haddr := congrArg Prod.fst hentry
    simp only [Prod.map, Nat.zero_add] at haddr
    rw [hlane, p.byteAddr_ofPhase .read false _ hk, AddressPhase.payloadAddr, if_neg hfix, hbeat] at haddr
    have hmod := congrArg BitVec.toNat haddr
    rw [BitVec.toNat_ofNat, BitVec.toNat_ofNat] at hmod
    have hlin := Burst.linearAddr_le (b := p.burst) n
    have hbound := AddressPhase.bus_le cfg
    have hnb := Nat.le_of_dvd cfg.bus_pos p.numberBytes_dvd
    have hmul : p.burst.total ≤ 128 * 256 := Nat.mul_le_mul (hnb.trans hbound) (AddressPhase.axlen_le p)
    have htotal : n * p.numberBytes + p.numberBytes ≤ p.burst.total := by
      rw [AddressPhase.total_eq, Nat.mul_comm p.numberBytes, ← Nat.succ_mul]
      exact Nat.mul_le_mul_right _ (by omega)
    have hlength : p.length ≤ p.burst.total := by
      rw [AddressPhase.length, if_neg hfix, AddressPhase.total_eq, Nat.mul_comm p.numberBytes]
      exact Nat.sub_le _ _
    have hbaddr : p.burst.addr = p.address.toNat := rfl
    have hsize : p.burst.size = p.numberBytes := rfl
    have hpos := p.numberBytes_pos
    have hblock : p.burst.addr < p.burst.wrapBoundary + p.burst.total := lt_alignDown_add _ (Nat.mul_pos hpos (Nat.succ_pos _))
    rw [hbaddr, hsize] at hlin
    omega
  · have hlin : ∀ m ≤ p.axlen, p.burstType = .fixed ∨ p.burst.beatAddr m = p.burst.linearAddr m := fun m hm => by
      refine or_iff_not_imp_left.2 fun hfix => ?_
      rw [Burst.beatAddr_of_ne_fixed hfix]
      exact if_neg fun hw => p.wraps_iff.2 (h hw.1) m hm hw.2
    have hzero : p.readPlace 0 = 0 := by simp [AddressPhase.readPlace]
    have hstart : AtBeat p buf 0 (Transaction.ofPhase .read false buf p) := ⟨rfl, rfl, rfl, rfl, hzero.symm⟩
    have hall := hstart.readBeats_sublist (p.axlen + 1) 0 rdata (Nat.zero_add _) hlin
    rw [hzero, Nat.sub_zero, ← p.dataLength_ofPhase .read false buf] at hall
    simp only [Nat.zero_add] at hall
    exact hall

/-- **The bursts that are carried.** The payload of a write burst writes what its strobed lanes write
exactly when each beat with a strobe lands, and a read burst returns the bytes of its payload on its
active lanes exactly when it does not wrap. -/
theorem bursts_iff (cfg : Config) :
    (∀ w : WriteBurst cfg, WriteOk cfg w ↔ ∀ n ≤ w.axlen, ∀ l, w.strobe n l = true → w.Lands n) ∧
      ∀ p : AddressPhase cfg, ReadOk cfg p ↔ (p.burstType = .wrap → p.address.toNat % p.burst.total < p.numberBytes) :=
  ⟨fun w => w.writeOk_iff, fun p => p.readOk_iff⟩

/-- A bus of four bytes. -/
def narrowBus : Config := ⟨2, two_le_seven, .axi4⟩

/-- Two beats of one byte each, to the first two bytes of the memory. -/
def narrowBurst : WriteBurst narrowBus where
  burstType := .incr
  address := 0
  axsize := 0
  axlen := 1
  axsize_le := Nat.zero_le _
  axlen_lt := by decide
  strobe n l := decide (n = 0 ∧ l = 0 ∨ n = 1 ∧ l = 1)
  active n l h := by
    obtain ⟨rfl, rfl⟩ | ⟨rfl, rfl⟩ := of_decide_eq_true h <;> decide

/-- The second byte is taken for a lane of the first beat and lost. -/
theorem not_writeOk : ¬WriteOk narrowBus narrowBurst := fun h =>
  absurd (h ⟨fun _ => 0, fun _ => 0⟩ fun _ _ => 0) (by decide)

end LibSystemCTLM.Axi2Tlm
