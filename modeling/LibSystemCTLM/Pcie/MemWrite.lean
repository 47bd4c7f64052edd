import LibSystemCTLM.Foundation.ByteMemory
import LibSystemCTLM.Pcie.MemRequest
import Mathlib.Data.Finset.Card
import Mathlib.Data.Finset.Image

/-!
# Memory writes over PCIe

A memory write becomes a TLP, and the bridge at the other end makes a DMA write of it. `WriteOk` is
what that is for: the DMA write changes each memory as the write does. The receiver writes whole DWs
without byte enables, from the address rounded down to a DW, and `writeOk_iff_wholeDWs` says for which writes
this is the same: the DMA write has an address for each byte it writes, so that every byte of the
payload is enabled and has an address of its own.
-/

namespace LibSystemCTLM.Pcie

open Foundation Tlm

/-- The DMA write at the other end is the write. -/
def WriteOk (gp : GenericPayload) (g : Genattr) : Prop :=
  ∃ r t, request .mem gp g = some r ∧ (∀ tlps, bTransport tlps r.wire = some (.mem t)) ∧ ∀ m, store t.dma.writes m = store gp.writes m

/-! ### The TLP of a write -/

section Tlp

variable {gp : GenericPayload} {g : Genattr} {last first : BitVec 32} {t : TLPMem}

/-- What follows from a TLP that is sent and taken apart. -/
theorem dma_of_write (hw : gp.isWrite = true) (hlen : gp.dataLength ≤ sz4K) {r : Request} (hr : request .mem gp g = some r)
    (ht : ∀ tlps, bTransport tlps r.wire = some (.mem t)) :
    IdsFit g ∧ (∃ last, lastDWBE gp (dwLen gp.dataLength) = some last ∧ last.toNat < 2 ^ 4) ∧
      (0 < t.dwLen ∧ dwLen gp.dataLength ≤ t.dwLen ∧ t.dwLen ≤ maxDWLen) ∧ t.dma = t.processWriteDMA ∧ getAddress t.hdr = gp.address >>> 2 <<< 2 := by
  obtain ⟨hdr, htlp, rfl⟩ := Option.map_eq_some_iff.1 hr
  obtain ⟨first, last, data, -, hlast, ⟨hids, hlast4, -⟩, -, rfl⟩ := (tlpMem_eq_some_iff hlen).1 htlp
  have hbt := ht []
  rw [if_pos hw, Request.wire, bTransport_memHdr _ _ _ hlen, parse_memHdr _ _ _ hlen, if_pos hw] at hbt
  split at hbt
  · obtain rfl := Received.mem.inj (Option.some.inj hbt)
    refine ⟨hids, ⟨last, hlast, hlast4⟩, ⟨getDWLen_pos _, ?_, getDWLen_le _⟩, ?_, getAddress_memHdr hlen⟩
    · rcases Nat.eq_zero_or_pos gp.dataLength with h0 | hpos
      · rw [h0]
        exact Nat.zero_le _
      · exact (getDWLen_memHdr _ _ _ hlen hpos).ge
    · rw [TLPMem.dma, isMemRd_memHdr hlen, hw, if_neg (by decide)]
  · exact nomatch hbt

end Tlp

/-! ### The addresses that are written -/

theorem mem_writes_iff {gp : GenericPayload} {x : Addr} :
    x ∈ gp.writes.map Prod.fst ↔ ∃ k < gp.dataLength, gp.enabled k = true ∧ gp.byteAddr k = x := by
  rw [List.mem_map]
  constructor
  · rintro ⟨w, hw, rfl⟩
    obtain ⟨k, hk, hsome⟩ := List.mem_filterMap.1 hw
    split at hsome
    · rename_i hen
      obtain rfl := Option.some.inj hsome
      exact ⟨k, List.mem_range.1 hk, hen, rfl⟩
    · exact nomatch hsome
  · rintro ⟨k, hk, hen, rfl⟩
    exact ⟨_, List.mem_filterMap.2 ⟨k, List.mem_range.2 hk, if_pos hen⟩, rfl⟩

theorem mem_writes_dma {t : TLPMem} {j : ℕ} (hj : j < t.dwLen * 4) :
    getAddress t.hdr + BitVec.ofNat 64 j ∈ t.processWriteDMA.writes.map Prod.fst := by
  refine mem_writes_iff.2 ⟨j, hj, rfl, ?_⟩
  show getAddress t.hdr + BitVec.ofNat 64 (j % (t.dwLen * 4)) = _
  rw [Nat.mod_eq_of_lt hj]

/-- As many addresses as there are bytes: each byte of the payload is enabled, and no two have one address. -/
theorem enabled_of_covers {gp : GenericPayload} {base : Addr} {n : ℕ} (hle : gp.dataLength ≤ n) (hn : n < 2 ^ 64)
    (h : ∀ j < n, base + BitVec.ofNat 64 j ∈ gp.writes.map Prod.fst) :
    gp.dataLength = n ∧ (∀ k < n, gp.enabled k = true) ∧ ∀ k < n, ∀ l < n, gp.byteAddr k = gp.byteAddr l → k = l := by
  let hits := (Finset.range gp.dataLength).filter fun k => gp.enabled k = true
  have hsub : (Finset.range n).image (fun j => base + BitVec.ofNat 64 j) ⊆ hits.image gp.byteAddr := fun x hx => by
    obtain ⟨j, hj, rfl⟩ := Finset.mem_image.1 hx
    obtain ⟨k, hk, hen, hkx⟩ := mem_writes_iff.1 (h j (Finset.mem_range.1 hj))
    exact Finset.mem_image.2 ⟨k, Finset.mem_filter.2 ⟨Finset.mem_range.2 hk, hen⟩, hkx⟩
  have hinj : Set.InjOn (fun j => base + BitVec.ofNat 64 j) (Finset.range n) := fun i hi j hj heq => by
    have hnat := congrArg (fun x => (x - base).toNat) heq
    simp only [toNat_add_ofNat_sub base (lt_trans (Finset.mem_range.1 hi) hn), toNat_add_ofNat_sub base (lt_trans (Finset.mem_range.1 hj) hn)] at hnat
    exact hnat
  have hcard : n ≤ (hits.image gp.byteAddr).card := by
    calc n = ((Finset.range n).image fun j => base + BitVec.ofNat 64 j).card := by rw [Finset.card_image_of_injOn hinj, Finset.card_range]
      _ ≤ (hits.image gp.byteAddr).card := Finset.card_le_card hsub
  have himage : (hits.image gp.byteAddr).card ≤ hits.card := Finset.card_image_le
  have hfilter : hits.card ≤ gp.dataLength := by
    calc hits.card ≤ (Finset.range gp.dataLength).card := Finset.card_filter_le _ _
      _ = gp.dataLength := Finset.card_range _
  have hall : hits = Finset.range gp.dataLength := Finset.eq_of_subset_of_card_le (Finset.filter_subset _ _) (by rw [Finset.card_range]; omega)
  have hen : ∀ k < gp.dataLength, gp.enabled k = true := fun k hk => by
    have hmem : k ∈ hits := hall.symm ▸ Finset.mem_range.2 hk
    exact (Finset.mem_filter.1 hmem).2
  have hone : Set.InjOn gp.byteAddr hits := Finset.card_image_iff.1 (by omega)
  have hlen : gp.dataLength = n := by omega
  refine ⟨hlen, fun k hk => hen k (hlen ▸ hk), fun k hk l hl heq => hone ?_ ?_ heq⟩
  · rw [hall, hlen]
    exact Finset.mem_coe.2 (Finset.mem_range.2 hk)
  · rw [hall, hlen]
    exact Finset.mem_coe.2 (Finset.mem_range.2 hl)

/-- Bytes with addresses of their own do not stream over fewer. -/
theorem le_streamingWidth {gp : GenericPayload} {n : ℕ} (h : ∀ k < n, ∀ l < n, gp.byteAddr k = gp.byteAddr l → k = l) :
    n ≤ gp.streamingWidth ∨ gp.streamingWidth = 0 := by
  by_contra hno
  obtain ⟨hlt, hne⟩ := not_or.1 hno
  refine hne (h gp.streamingWidth (Nat.lt_of_not_le hlt) 0 (by omega) ?_)
  rw [GenericPayload.byteAddr, GenericPayload.byteAddr, Nat.mod_self, Nat.zero_mod]

/-! ### The writes that arrive -/

section Arrives

variable {gp : GenericPayload} {g : Genattr}

theorem memData_of_dvd {j n : ℕ} (h : gp.dataLength = 4 * (j + n)) :
    memData gp (4 * j) =
      some ((List.range' j n).map fun k => word32 (gp.data (4 * k)) (gp.data (4 * k + 1)) (gp.data (4 * k + 2)) (gp.data (4 * k + 3))) := by
  induction n generalizing j with
  | zero => rw [memData, dif_neg (by omega), List.range'_zero, List.map_nil]
  | succ n ih =>
    have hbyte : ∀ i < 4, byte? gp (4 * j + i) = some (gp.data (4 * j + i)) := fun i hi => if_pos (by omega)
    have h0 := hbyte 0 (by omega)
    rw [Nat.add_zero] at h0
    rw [memData, dif_pos (by omega), h0, if_pos (by omega), if_pos (by omega), if_pos (by omega), hbyte 1 (by omega), hbyte 2 (by omega),
      hbyte 3 (by omega), Nat.min_eq_right (by omega), show 4 * j + 4 = 4 * (j + 1) by omega, ih (by omega), List.range'_succ]
    rfl

theorem memData_eq (h : gp.dataLength % 4 = 0) : memData gp 0 = some (arrayWords gp.data (dwLen gp.dataLength)) := by
  have hd : gp.dataLength = 4 * (0 + dwLen gp.dataLength) := by
    rw [dwLen_eq]
    omega
  have hdata := memData_of_dvd hd
  rwa [Nat.mul_zero, ← List.range_eq_range'] at hdata

theorem shiftRight_shiftLeft (h : gp.address.toNat % 4 = 0) : gp.address >>> 2 <<< 2 = gp.address := by
  apply BitVec.eq_of_toNat_eq
  rw [BitVec.toNat_shiftLeft, BitVec.toNat_ushiftRight, Nat.shiftLeft_eq, Nat.shiftRight_eq_div_pow]
  have := gp.address.isLt
  omega

/-- The last byte enables of a write that is sent fit. -/
theorem lastDWBE_fits (h : gp.byteEnable = [] ∨ (gp.dataLength = 4 ∧ ∀ k < 4, gp.enabled k = true)) :
    ∃ last, lastDWBE gp (dwLen gp.dataLength) = some last ∧ last.toNat < 2 ^ 4 := by
  rw [lastDWBE]
  split
  · rename_i hlt
    rcases h with hbe | ⟨hlen, -⟩
    · exact ⟨_, if_pos hbe, by decide⟩
    · rw [hlen] at hlt
      exact absurd hlt (by decide)
  · exact ⟨_, rfl, by decide⟩

theorem writes_processWriteDMA {t : TLPMem} (haddr : getAddress t.hdr = gp.address) (hlen : t.dwLen * 4 = gp.dataLength)
    (hdata : ∀ k < gp.dataLength, t.data k = gp.data k) (hen : ∀ k < gp.dataLength, gp.enabled k = true)
    (hsw : gp.dataLength ≤ gp.streamingWidth ∨ gp.streamingWidth = 0) : t.processWriteDMA.writes = gp.writes := by
  show (List.range (t.dwLen * 4)).filterMap _ = (List.range gp.dataLength).filterMap _
  rw [hlen]
  refine List.filterMap_congr fun k hk => ?_
  have hk := List.mem_range.1 hk
  have hplace : k % gp.streamingWidth = k := by
    rcases hsw with hle | hzero
    · exact Nat.mod_eq_of_lt (lt_of_lt_of_le hk hle)
    · rw [hzero, Nat.mod_zero]
  have hbyte : t.processWriteDMA.byteAddr k = gp.byteAddr k := by
    show getAddress t.hdr + BitVec.ofNat 64 (k % (t.dwLen * 4)) = gp.address + BitVec.ofNat 64 (k % gp.streamingWidth)
    rw [haddr, hlen, hplace, Nat.mod_eq_of_lt hk]
  have hall : t.processWriteDMA.enabled k = true := rfl
  rw [if_pos (hen k hk), if_pos hall, hbyte]
  exact congrArg (fun b => some (gp.byteAddr k, b)) (hdata k hk)

/-- A write that arrives as it is consists of whole DWs, and each of its bytes is enabled. -/
theorem WriteOk.whole (hw : gp.isWrite = true) (hlen : gp.dataLength ≤ sz4K) (h : WriteOk gp g) :
    (0 < gp.dataLength ∧ gp.dataLength % 4 = 0) ∧ (∀ k < gp.dataLength, gp.enabled k = true) ∧
      (gp.dataLength ≤ gp.streamingWidth ∨ gp.streamingWidth = 0) ∧ (∃ k < gp.dataLength, gp.byteAddr k = gp.address >>> 2 <<< 2) := by
  obtain ⟨r, t, hr, ht, hstore⟩ := h
  obtain ⟨-, -, ⟨hpos, hle, hle'⟩, hdma, haddr⟩ := dma_of_write hw hlen hr ht
  have : Nontrivial Byte := ⟨0, 1, by simp⟩
  have hmax : maxDWLen = 1024 := rfl
  rw [hdma] at hstore
  have hcovers : ∀ j < t.dwLen * 4, getAddress t.hdr + BitVec.ofNat 64 j ∈ gp.writes.map Prod.fst :=
    fun j hj => mem_of_store_eq hstore (mem_writes_dma hj)
  have hbytes := le_dwLen gp.dataLength
  obtain ⟨hn, hen, hinj⟩ := enabled_of_covers (by omega) (by omega) hcovers
  refine ⟨by omega, fun k hk => hen k (hn ▸ hk), ?_, ?_⟩
  · have hsw := le_streamingWidth hinj
    rwa [← hn] at hsw
  · obtain ⟨k, hk, -, hbase⟩ := mem_writes_iff.1 (hcovers 0 (by omega))
    rw [haddr] at hbase
    exact ⟨k, hk, hbase.trans (BitVec.add_zero _)⟩

/-- **The DMA write is the write exactly for whole DWs, all of them enabled.** The address and the length
are multiples of four, the buffer does not stream, the IDs fit, and there are no byte enables, or those of
a single DW. -/
theorem writeOk_iff_wholeDWs (gp : GenericPayload) (g : Genattr) (hw : gp.command = .write) (hlen : gp.dataLength ≤ sz4K) :
    WriteOk gp g ↔ (0 < gp.dataLength ∧ gp.dataLength % 4 = 0) ∧ gp.address.toNat % 4 = 0 ∧
      (gp.dataLength ≤ gp.streamingWidth ∨ gp.streamingWidth = 0) ∧
      (gp.byteEnable = [] ∨ (gp.dataLength = 4 ∧ ∀ k < 4, gp.enabled k = true)) ∧ IdsFit g := by
  have hmax : sz4K = 4096 := rfl
  have hwrite : gp.isWrite = true := decide_eq_true hw
  constructor
  · intro h
    obtain ⟨hdws, hen, hsw, k, hk, hbase⟩ := h.whole hwrite hlen
    obtain ⟨r, t, hr, ht, -⟩ := h
    obtain ⟨hids, ⟨last, hlast, hlast4⟩, -, -, -⟩ := dma_of_write hwrite hlen hr ht
    refine ⟨hdws, ?_, hsw, ?_, hids⟩
    · have hround := toNat_shiftRight_shiftLeft gp.address
      have hk' : k % gp.streamingWidth ≤ k := Nat.mod_le _ _
      have hnat := congrArg BitVec.toNat hbase
      rw [GenericPayload.byteAddr_eq, BitVec.toNat_ofNat] at hnat
      have := gp.address.isLt
      omega
    · by_contra hbe
      obtain ⟨hne, hno⟩ := not_or.1 hbe
      have h1 : 1 < dwLen gp.dataLength := by
        by_contra h1
        rw [dwLen_eq] at h1
        exact hno ⟨by omega, fun k hk => hen k (by omega)⟩
      have hlastDW : (dwLen gp.dataLength - 1) * 4 < gp.dataLength := by
        rw [dwLen_eq]
        omega
      rw [lastDWBE, if_pos h1, if_neg hne] at hlast
      have hfit := (beBits_fits gp.enabled 0 ((dwLen gp.dataLength - 1) * 4) 4).1 ⟨last, hlast, hlast4⟩ 0 (by omega) (hen _ hlastDW)
      omega
  · rintro ⟨⟨hpos, h4⟩, haddr, hsw, hbe, hids⟩
    obtain ⟨first, hfirst, hfirst4⟩ := firstDWBE_fits gp
    obtain ⟨last, hlast, hlast4⟩ := lastDWBE_fits hbe
    have hdata := memData_eq h4
    have htlp := (tlpMem_eq_some_iff hlen (g := g)).2 ⟨first, last, _, hfirst, hlast, ⟨hids, hlast4, hfirst4⟩, (if_pos hwrite).trans hdata, rfl⟩
    have hdw := getDWLen_memHdr g last first hlen hpos
    have hparse := parse_memHdr g last first hlen (arrayWords gp.data (dwLen gp.dataLength))
    rw [if_pos hwrite, hdw, if_pos (by rw [length_arrayWords])] at hparse
    have hdma : (TLPMem.processWriteDMA ⟨memHdr gp g last first, dwLen gp.dataLength,
        fun i => (bytesOf (arrayWords gp.data (dwLen gp.dataLength))).getD i 0⟩).writes = gp.writes := by
      have hbytes : dwLen gp.dataLength * 4 = gp.dataLength := by
        rw [dwLen_eq]
        omega
      refine writes_processWriteDMA ((getAddress_memHdr hlen).trans (shiftRight_shiftLeft haddr)) hbytes (fun k hk => ?_) (fun k hk => ?_) hsw
      · show (bytesOf _).getD k 0 = gp.data k
        rw [bytesOf_arrayWords, List.getD_eq_getElem?_getD, List.getElem?_map, List.getElem?_range (by omega)]
        rfl
      · rcases hbe with hnone | ⟨hfour, hall⟩
        · simp [GenericPayload.enabled, hnone]
        · exact hall k (hfour ▸ hk)
    refine ⟨_, ⟨_, _, _⟩, Option.map_eq_some_iff.2 ⟨_, htlp, if_pos hwrite⟩,
      fun tlps => (bTransport_memHdr _ _ _ hlen _ tlps).trans (congrArg (Option.map Received.mem) hparse), fun m => ?_⟩
    rw [TLPMem.dma, isMemRd_memHdr hlen, hwrite, if_neg (by decide), hdma]

end Arrives

/-- Two DWs above 4 GB arrive. -/
theorem writeOk_of_dws : WriteOk { command := .write, address := 0x100000010, dataLength := 8, streamingWidth := 8 } {} :=
  (writeOk_iff_wholeDWs _ _ rfl (by decide)).2 ⟨by decide, rfl, .inl le_rfl, .inl rfl, by decide, by decide⟩

/-- A DW of which the first byte is enabled. -/
def firstByte : GenericPayload where
  command := .write
  dataLength := 4
  streamingWidth := 4
  byteEnable := [0xff, 0, 0, 0]

/-- The receiver writes the whole DW. -/
theorem not_writeOk_firstByte : (∃ r, request .mem firstByte {} = some r) ∧ ¬WriteOk firstByte {} := by
  have hlen : firstByte.dataLength ≤ sz4K := by decide
  obtain ⟨first, hfirst, hfirst4⟩ := firstDWBE_fits firstByte
  have htlp := (tlpMem_eq_some_iff hlen (g := {})).2
    ⟨first, 0, _, hfirst, rfl, ⟨by decide, by decide, hfirst4⟩, (if_pos rfl).trans (memData_eq rfl), rfl⟩
  refine ⟨⟨_, Option.map_eq_some_iff.2 ⟨_, htlp, rfl⟩⟩, fun h => ?_⟩
  have hall := (h.whole rfl hlen).2.1 1 (by decide)
  exact absurd hall (by decide)

end LibSystemCTLM.Pcie
