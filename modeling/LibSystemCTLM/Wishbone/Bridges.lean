import LibSystemCTLM.Tlm.Payload
import Mathlib.Data.List.Induction
import Mathlib.Tactic.Ring
import Mathlib.Tactic.SplitIfs

/-!
# `tlm2wishbone_bridge` and `wishbone2tlm_bridge`

The initiator side makes one cycle for each chunk of the payload. It has the lane select shifted to the lanes of the
address and does not use it: it selects the lanes from 0 on, while it shifts the data that it writes. What it reads it
shifts by the alignment of the first address, and all chunks have the length of the first one, also the last. The
target side makes an access of the whole bus width of each cycle, as the length of its byte enables stays 0.

So an aligned payload is carried that is no longer than the bus or a multiple of it (`bridgeRight_iff`), and behind the
target side only a multiple (`wishbone_right_iff`).
-/

namespace LibSystemCTLM.Wishbone

open Tlm

/-- `DATA_WIDTH`, which has to be 32 or 64, and `ADDR_WIDTH`. -/
structure Config where
  wide : Bool
  addrWidth : ℕ

/-- `bus_width`. -/
def Config.busWidth (cfg : Config) : ℕ := if cfg.wide = true then 8 else 4

/-- The signals of a cycle. -/
structure Cycle where
  adr : ℕ
  we : Bool
  sel : ℕ → Bool
  dat : ℕ → Byte

variable (cfg : Config) (gp : GenericPayload)

/-! ### The initiator side -/

/-- `tlen`. It does not take `pos` into account. -/
def tlen : ℕ := min cfg.busWidth gp.dataLength

/-- The cycle that starts at `pos`. What it writes does not matter when it reads. -/
def cycle (pos : ℕ) : Cycle where
  adr := (gp.address + BitVec.ofNat 64 pos).toNat % 2 ^ cfg.addrWidth
  we := !gp.isRead
  sel l := decide (l < tlen cfg gp)
  dat l :=
    let shift := (gp.address + BitVec.ofNat 64 pos).toNat % cfg.busWidth
    if shift ≤ l ∧ l < shift + tlen cfg gp then gp.data (pos + (l - shift)) else 0

/-- Where the turns of the loop start. It has one turn at least. Where `pos` would wrap the end of the data has been
passed before. -/
def positions (pos : ℕ) : List ℕ :=
  if pos + tlen cfg gp < gp.dataLength then pos :: positions (pos + tlen cfg gp) else [pos]
termination_by gp.dataLength - pos
decreasing_by
  rename_i h
  have hbus : 0 < cfg.busWidth := by unfold Config.busWidth; split <;> decide
  unfold tlen at h ⊢
  omega

/-- What a turn stores when it reads, where `dat_i pos` is the answer to the cycle that starts at `pos`. -/
def store (dat_i : ℕ → ℕ → Byte) (data : ℕ → Byte) (pos : ℕ) : ℕ → Byte := fun k =>
  if pos ≤ k ∧ k < pos + tlen cfg gp then
    let l := k - pos + gp.address.toNat % cfg.busWidth
    if l < cfg.busWidth then dat_i pos l else 0
  else data k

/-- `b_transport`: the cycles and the data after them. -/
def bTransport (dat_i : ℕ → ℕ → Byte) : List Cycle × (ℕ → Byte) :=
  ((positions cfg gp 0).map (cycle cfg gp), if gp.isRead = true then (positions cfg gp 0).foldl (store cfg gp dat_i) gp.data else gp.data)

/-! ### The target side -/

/-- The payload of `wb_thread` for a cycle. The byte enables it fills in have the length 0. -/
def wbThread (c : Cycle) : GenericPayload where
  command := if c.we = true then .write else .read
  address := BitVec.ofNat 64 c.adr
  data := c.dat
  dataLength := cfg.busWidth
  byteEnable := []
  streamingWidth := cfg.busWidth

/-! ### What is asked of them -/

/-- Something of each byte of the payload that is enabled. -/
def enabledBytes {α : Type} (f : ℕ → α) : List α := (List.range gp.dataLength).filterMap fun k => if gp.enabled k = true then some (f k) else none

/-- Something of each lane of the cycles. -/
def laneBytes {α : Type} (lanes : ℕ → List ℕ) (f : ℕ → ℕ → α) : List α := (positions cfg gp 0).flatMap fun p => (lanes p).map (f p)

/-- The cycle at `p` accesses `lanes p`, and lane `l` stands for the address `loc p l` with the data `dat p l`. -/
structure Delivered (lanes : ℕ → List ℕ) (loc : ℕ → ℕ → ℕ) (dat : ℕ → ℕ → Byte) : Prop where
  addresses : laneBytes cfg gp lanes loc = enabledBytes gp fun k => (gp.byteAddr k).toNat
  written : gp.isRead = false → laneBytes cfg gp lanes dat = enabledBytes gp gp.data
  read : gp.isRead = true → ∀ dat_i k,
    if k < gp.dataLength ∧ gp.enabled k = true then
      ∃ p ∈ positions cfg gp 0, ∃ l ∈ lanes p, loc p l = (gp.byteAddr k).toNat ∧ (bTransport cfg gp dat_i).2 k = dat_i p l
    else (bTransport cfg gp dat_i).2 k = gp.data k

/-- The initiator side stays inside of the data and selects the lanes of the bytes in the bus words of the addresses. -/
structure BridgeRight : Prop where
  inside : ∀ p ∈ positions cfg gp 0, p + tlen cfg gp ≤ gp.dataLength
  delivered : Delivered cfg gp (fun p => (List.range cfg.busWidth).filter (cycle cfg gp p).sel)
    (fun p l => (cycle cfg gp p).adr / cfg.busWidth * cfg.busWidth + l) fun p => (cycle cfg gp p).dat

/-- The target sees exactly the bytes of the payload. -/
def TargetRight : Prop :=
  Delivered cfg gp (fun p => (List.range (wbThread cfg (cycle cfg gp p)).dataLength).filter (wbThread cfg (cycle cfg gp p)).enabled)
    (fun p l => ((wbThread cfg (cycle cfg gp p)).byteAddr l).toNat) fun p => (wbThread cfg (cycle cfg gp p)).data

/-- Byte `k` is on the lane of `k` in the word that the address bus has for it. -/
def InPlace (k : ℕ) : Prop :=
  (gp.byteAddr k).toNat / cfg.busWidth = (gp.address + BitVec.ofNat 64 k).toNat % 2 ^ cfg.addrWidth / cfg.busWidth ∧
    (gp.byteAddr k).toNat % cfg.busWidth = k % cfg.busWidth

/-- The start is aligned, and all bytes are enabled and in place. -/
def Aligned : Prop := cfg.busWidth ∣ gp.address.toNat ∧ ∀ k < gp.dataLength, gp.enabled k = true ∧ InPlace cfg gp k

variable {cfg gp} {k q t : ℕ}

theorem busWidth_eq : cfg.busWidth = 2 ^ if cfg.wide = true then 3 else 2 := by
  unfold Config.busWidth
  split <;> rfl

theorem busWidth_pos (cfg : Config) : 0 < cfg.busWidth := busWidth_eq ▸ Nat.two_pow_pos _

theorem tlen_le : tlen cfg gp ≤ cfg.busWidth := Nat.min_le_left _ _

theorem tlen_pos (hpos : 0 < gp.dataLength) : 0 < tlen cfg gp := Nat.lt_min.2 ⟨busWidth_pos cfg, hpos⟩

theorem tlen_dvd_iff : tlen cfg gp ∣ gp.dataLength ↔ gp.dataLength ≤ cfg.busWidth ∨ cfg.busWidth ∣ gp.dataLength := by
  rcases Nat.le_total gp.dataLength cfg.busWidth with hle | hle
  · rw [tlen, Nat.min_eq_right hle]
    exact iff_of_true (Nat.dvd_refl _) (.inl hle)
  · rw [tlen, Nat.min_eq_left hle]
    refine ⟨.inr, fun h => h.elim (fun h => ?_) id⟩
    rw [Nat.le_antisymm hle h]

theorem mod_tlen (hk : k < gp.dataLength) : k % tlen cfg gp = k % cfg.busWidth := by
  rcases Nat.le_total gp.dataLength cfg.busWidth with hle | hle
  · rw [tlen, Nat.min_eq_right hle, Nat.mod_eq_of_lt hk, Nat.mod_eq_of_lt (hk.trans_le hle)]
  · rw [tlen, Nat.min_eq_left hle]

/-- Where the chunk of byte `k` starts. -/
theorem chunk_start (hk : k < gp.dataLength) : k / tlen cfg gp * tlen cfg gp = k / cfg.busWidth * cfg.busWidth := by
  have h1 := Nat.div_add_mod' k (tlen cfg gp)
  have h2 := Nat.div_add_mod' k cfg.busWidth
  rw [mod_tlen hk] at h1
  omega

/-! ### The loop -/

/-- The last turn starts a multiple of `tlen` after the first and reaches the end. -/
theorem exists_last (cfg : Config) (gp : GenericPayload) (pos : ℕ) (hpos : tlen cfg gp ∣ pos) : ∃ p ∈ positions cfg gp pos, tlen cfg gp ∣ p ∧ gp.dataLength ≤ p + tlen cfg gp := by
  induction pos using positions.induct cfg gp with
  | case1 pos h ih =>
    obtain ⟨p, hp, hdvd, hend⟩ := ih (Nat.dvd_add hpos (Nat.dvd_refl _))
    rw [positions, if_pos h]
    exact ⟨p, List.mem_cons_of_mem _ hp, hdvd, hend⟩
  | case2 pos h =>
    rw [positions, if_neg h]
    exact ⟨pos, List.mem_singleton_self _, hpos, by omega⟩

theorem positions_range' (hlen : gp.dataLength = q * tlen cfg gp) (hpos : 0 < gp.dataLength) :
    ∀ n j, j + (n + 1) = q → positions cfg gp (j * tlen cfg gp) = (List.range' j (n + 1)).map (· * tlen cfg gp)
  | 0, j, hq => by
    rw [positions, if_neg (by rw [hlen, ← hq, Nat.add_one_mul]; omega)]
    rfl
  | n + 1, j, hq => by
    have hlt : j * tlen cfg gp + tlen cfg gp < gp.dataLength := by
      rw [hlen, ← hq, ← Nat.add_one_mul]
      exact Nat.mul_lt_mul_of_pos_right (by omega) (tlen_pos hpos)
    rw [positions, if_pos hlt, ← Nat.add_one_mul, positions_range' hlen hpos n (j + 1) (by omega)]
    rfl

theorem positions_eq (hlen : gp.dataLength = q * tlen cfg gp) (hpos : 0 < gp.dataLength) :
    positions cfg gp 0 = (List.range q).map (· * tlen cfg gp) := by
  obtain ⟨n, rfl⟩ : ∃ n, q = n + 1 := Nat.exists_eq_succ_of_ne_zero fun h => by rw [h, Nat.zero_mul] at hlen; omega
  have h := positions_range' hlen hpos n 0 (Nat.zero_add _)
  rwa [Nat.zero_mul, ← List.range_eq_range'] at h

theorem flatMap_range_mul {α : Type} (f : ℕ → ℕ → α) (ht : 0 < t) :
    (List.range q).flatMap (fun j => (List.range t).map (f j)) = (List.range (q * t)).map fun k => f (k / t) (k % t) := by
  induction q with
  | zero => rw [Nat.zero_mul]; rfl
  | succ q ih =>
    rw [List.range_succ, List.flatMap_append, ih, List.flatMap_singleton, Nat.add_one_mul, List.range_add, List.map_append, List.map_map]
    congr 1
    refine List.map_congr_left fun i hi => ?_
    have hi : i < t := List.mem_range.1 hi
    rw [Function.comp_apply, Nat.mul_comm q t, Nat.mul_add_div ht, Nat.mul_add_mod, Nat.div_eq_of_lt hi, Nat.mod_eq_of_lt hi, Nat.add_zero]

theorem laneBytes_eq {α : Type} {lanes : ℕ → List ℕ} (f : ℕ → ℕ → α) (hdvd : tlen cfg gp ∣ gp.dataLength) (hpos : 0 < gp.dataLength)
    (hlanes : ∀ p, lanes p = List.range (tlen cfg gp)) :
    laneBytes cfg gp lanes f = (List.range gp.dataLength).map fun k => f (k / tlen cfg gp * tlen cfg gp) (k % tlen cfg gp) := by
  obtain ⟨q, hq⟩ := hdvd
  rw [Nat.mul_comm] at hq
  unfold laneBytes
  rw [positions_eq hq hpos, List.flatMap_map, hq]
  simp only [hlanes]
  exact flatMap_range_mul (fun j => f (j * tlen cfg gp)) (tlen_pos hpos)

/-- All bytes are enabled where each has its counterpart. -/
theorem map_eq_enabledBytes_iff {α : Type} {f g : ℕ → α} :
    (List.range gp.dataLength).map f = enabledBytes gp g ↔ ∀ k < gp.dataLength, gp.enabled k = true ∧ f k = g k := by
  rw [eq_comm, enabledBytes, List.filterMap_eq_map_iff_forall_eq_some]
  refine forall_congr' fun k => ?_
  rw [List.mem_range]
  refine imp_congr_right fun _ => ?_
  split
  · rename_i hen
    rw [Option.some.injEq, eq_comm]
    exact (and_iff_right hen).symm
  · rename_i hen
    exact iff_of_false nofun fun h => hen h.1

/-- What is read, when the address is aligned. -/
theorem foldl_store (dat_i : ℕ → ℕ → Byte) (hdvd : cfg.busWidth ∣ gp.address.toNat) (hpos : 0 < gp.dataLength) :
    ((List.range q).map (· * tlen cfg gp)).foldl (store cfg gp dat_i) gp.data = fun k =>
      if k < q * tlen cfg gp then dat_i (k / tlen cfg gp * tlen cfg gp) (k % tlen cfg gp) else gp.data k := by
  have ht : 0 < tlen cfg gp := tlen_pos hpos
  induction q with
  | zero => simp
  | succ q ih =>
    rw [List.range_succ, List.map_append, List.foldl_append, ih, List.map_singleton, List.foldl_cons, List.foldl_nil]
    funext k
    rw [store, Nat.mod_eq_zero_of_dvd hdvd, Nat.add_zero, Nat.add_one_mul]
    have hle : tlen cfg gp ≤ cfg.busWidth := tlen_le
    by_cases hin : q * tlen cfg gp ≤ k ∧ k < q * tlen cfg gp + tlen cfg gp
    · have hdiv : k / tlen cfg gp = q := Nat.div_eq_of_lt_le hin.1 (by rw [Nat.add_one_mul]; exact hin.2)
      have hmod : k % tlen cfg gp = k - q * tlen cfg gp := by rw [← hdiv, Nat.mod_eq_sub, Nat.mul_comm]
      dsimp only
      rw [if_pos hin, if_pos (by omega), if_pos hin.2, hdiv, hmod]
    · rw [if_neg hin]
      by_cases hlt : k < q * tlen cfg gp
      · rw [if_pos hlt, if_pos (by omega)]
      · rw [if_neg hlt, if_neg (by omega)]

/-! ### The words of the bus -/

theorem add_lt_of_dvd {b x m r : ℕ} (hx : b ∣ x) (hm : b ∣ m) (hlt : x < m) (hr : r < b) : x + r < m := by
  obtain ⟨i, rfl⟩ := hx
  obtain ⟨j, rfl⟩ := hm
  have hij : i + 1 ≤ j := Nat.lt_of_mul_lt_mul_left hlt
  calc b * i + r < b * i + b := Nat.add_lt_add_left hr _
    _ = b * (i + 1) := (Nat.mul_add_one b i).symm
    _ ≤ b * j := Nat.mul_le_mul_left b hij

/-- Lane `r` of a word of the memory is in the word of the address bus. -/
theorem word_mod {a b x r : ℕ} (hx : 2 ^ b ∣ x) (hr : r < 2 ^ b) : (x + r) % 2 ^ a / 2 ^ b = x % 2 ^ a / 2 ^ b := by
  rcases Nat.le_total b a with hle | hle
  · have hdvd : 2 ^ b ∣ 2 ^ a := pow_dvd_pow 2 hle
    have hmod : 2 ^ b ∣ x % 2 ^ a := (Nat.dvd_mod_iff hdvd).2 hx
    rw [Nat.add_mod, Nat.mod_eq_of_lt (hr.trans_le (Nat.le_of_dvd (Nat.two_pow_pos a) hdvd)),
      Nat.mod_eq_of_lt (add_lt_of_dvd hmod hdvd (Nat.mod_lt _ (Nat.two_pow_pos a)) hr)]
    obtain ⟨c, hc⟩ := hmod
    rw [hc, Nat.mul_add_div (Nat.two_pow_pos b), Nat.div_eq_of_lt hr, Nat.add_zero, Nat.mul_div_cancel_left _ (Nat.two_pow_pos b)]
  · have hdvd : 2 ^ a ∣ 2 ^ b := pow_dvd_pow 2 hle
    have hlt : (x + r) % 2 ^ a < 2 ^ b := (Nat.mod_lt _ (Nat.two_pow_pos a)).trans_le (Nat.le_of_dvd (Nat.two_pow_pos b) hdvd)
    rw [Nat.mod_eq_zero_of_dvd (hdvd.trans hx), Nat.zero_div, Nat.div_eq_of_lt hlt]

theorem busWidth_dvd : cfg.busWidth ∣ 2 ^ 64 := by
  rw [busWidth_eq]
  exact pow_dvd_pow 2 (by split <;> decide)

/-- Where a chunk starts, which is aligned if the payload is. -/
theorem dvd_start (hdvd : cfg.busWidth ∣ gp.address.toNat) (j : ℕ) :
    cfg.busWidth ∣ (gp.address + BitVec.ofNat 64 (j * cfg.busWidth)).toNat := by
  rw [BitVec.toNat_add, BitVec.toNat_ofNat, Nat.add_mod_mod]
  exact (Nat.dvd_mod_iff busWidth_dvd).2 (Nat.dvd_add hdvd (Nat.dvd_mul_left _ _))

theorem toNat_add_mod (hdvd : cfg.busWidth ∣ gp.address.toNat) (k : ℕ) :
    (gp.address + BitVec.ofNat 64 k).toNat = (gp.address + BitVec.ofNat 64 (k / cfg.busWidth * cfg.busWidth)).toNat + k % cfg.busWidth := by
  have hlt := add_lt_of_dvd (dvd_start hdvd (k / cfg.busWidth)) busWidth_dvd (BitVec.isLt _) (Nat.mod_lt k (busWidth_pos cfg))
  have hk : k = k / cfg.busWidth * cfg.busWidth + k % cfg.busWidth := (Nat.div_add_mod' k _).symm
  rw [BitVec.toNat_add, BitVec.toNat_ofNat, Nat.add_mod_mod] at hlt ⊢
  rw [BitVec.toNat_add, BitVec.toNat_ofNat, Nat.add_mod_mod, ← Nat.mod_eq_of_lt hlt, Nat.mod_add_mod, Nat.add_assoc, ← hk]

/-- The word and the lane of byte `k` in its cycle. -/
theorem inPlace_iff (hdvd : cfg.busWidth ∣ gp.address.toNat) (hk : k < gp.dataLength) :
    (cycle cfg gp (k / tlen cfg gp * tlen cfg gp)).adr / cfg.busWidth * cfg.busWidth + k % tlen cfg gp = (gp.byteAddr k).toNat ↔
      InPlace cfg gp k := by
  have hword : (gp.address + BitVec.ofNat 64 k).toNat % 2 ^ cfg.addrWidth / cfg.busWidth =
      (cycle cfg gp (k / tlen cfg gp * tlen cfg gp)).adr / cfg.busWidth := by
    rw [toNat_add_mod hdvd, chunk_start hk]
    have h := dvd_start hdvd (k / cfg.busWidth)
    have hr := Nat.mod_lt k (busWidth_pos cfg)
    unfold cycle
    generalize (gp.address + BitVec.ofNat 64 (k / cfg.busWidth * cfg.busWidth)).toNat = x at h ⊢
    generalize k % cfg.busWidth = r at hr ⊢
    rw [busWidth_eq] at h hr ⊢
    exact word_mod h hr
  unfold InPlace
  rw [hword, mod_tlen hk, eq_comm]
  constructor
  · intro h
    rw [h, Nat.mul_comm, Nat.mul_add_div (busWidth_pos cfg), Nat.mul_add_mod, Nat.mod_mod, Nat.div_eq_of_lt (Nat.mod_lt k (busWidth_pos cfg))]
    exact ⟨rfl, rfl⟩
  · rintro ⟨hdiv, hmod⟩
    rw [← hdiv, ← hmod, Nat.div_add_mod']

/-! ### The initiator side -/

theorem filter_lt_range {m n : ℕ} (h : m ≤ n) : (List.range n).filter (fun l => decide (l < m)) = List.range m := by
  obtain ⟨d, rfl⟩ := Nat.exists_eq_add_of_le h
  have hin : (List.range m).filter (fun l => decide (l < m)) = List.range m :=
    List.filter_eq_self.2 fun l hl => decide_eq_true (List.mem_range.1 hl)
  have hout : ((List.range d).map (m + ·)).filter (fun l => decide (l < m)) = [] := by
    refine List.filter_eq_nil_iff.2 fun l hl => ?_
    obtain ⟨i, -, rfl⟩ := List.mem_map.1 hl
    simp
  rw [List.range_add, List.filter_append, hin, hout, List.append_nil]

theorem selected_eq (p : ℕ) : (List.range cfg.busWidth).filter (cycle cfg gp p).sel = List.range (tlen cfg gp) := filter_lt_range tlen_le

theorem dat_eq {p l : ℕ} (hdvd : cfg.busWidth ∣ (gp.address + BitVec.ofNat 64 p).toNat) (hl : l < tlen cfg gp) :
    (cycle cfg gp p).dat l = gp.data (p + l) := by
  have hshift : (gp.address + BitVec.ofNat 64 p).toNat % cfg.busWidth = 0 := Nat.mod_eq_zero_of_dvd hdvd
  simp only [cycle, hshift]
  rw [if_pos ⟨Nat.zero_le _, by omega⟩, Nat.sub_zero]

/-- The chunk of a byte is aligned, and made by the loop. -/
theorem dvd_chunk (hdvd : cfg.busWidth ∣ gp.address.toNat) (hk : k < gp.dataLength) :
    cfg.busWidth ∣ (gp.address + BitVec.ofNat 64 (k / tlen cfg gp * tlen cfg gp)).toNat := by
  exact chunk_start hk ▸ dvd_start hdvd _

/-- An aligned payload of whole chunks is delivered to the lanes from 0 on, if they stand for its addresses. -/
theorem delivered_of_aligned {lanes : ℕ → List ℕ} {loc : ℕ → ℕ → ℕ} {dat : ℕ → ℕ → Byte} (hlen : tlen cfg gp ∣ gp.dataLength)
    (hpos : 0 < gp.dataLength) (hal : Aligned cfg gp) (hlanes : ∀ p, lanes p = List.range (tlen cfg gp))
    (hloc : ∀ k < gp.dataLength, loc (k / tlen cfg gp * tlen cfg gp) (k % tlen cfg gp) = (gp.byteAddr k).toNat)
    (hdat : ∀ p, dat p = (cycle cfg gp p).dat) : Delivered cfg gp lanes loc dat where
  addresses := by
    rw [laneBytes_eq loc hlen hpos hlanes]
    exact map_eq_enabledBytes_iff.2 fun k hk => ⟨(hal.2 k hk).1, hloc k hk⟩
  written _ := by
    rw [laneBytes_eq dat hlen hpos hlanes]
    refine map_eq_enabledBytes_iff.2 fun k hk => ⟨(hal.2 k hk).1, ?_⟩
    rw [hdat, dat_eq (dvd_chunk hal.1 hk) (Nat.mod_lt _ (tlen_pos hpos)), Nat.div_add_mod']
  read hread dat_i k := by
    obtain ⟨q, hq⟩ := hlen
    rw [Nat.mul_comm] at hq
    have hdata : (bTransport cfg gp dat_i).2 = _ := if_pos hread
    rw [positions_eq hq hpos, foldl_store dat_i hal.1 hpos, ← hq] at hdata
    rw [hdata]
    split
    · rename_i hk
      refine ⟨_, ?_, _, ?_, hloc k hk.1, if_pos hk.1⟩
      · rw [positions_eq hq hpos]
        exact List.mem_map_of_mem (List.mem_range.2 (Nat.div_lt_of_lt_mul (by rw [Nat.mul_comm, ← hq]; exact hk.1)))
      · rw [hlanes]
        exact List.mem_range.2 (Nat.mod_lt _ (tlen_pos hpos))
    · rename_i hk
      exact if_neg fun hlt => hk ⟨hlt, (hal.2 k hlt).1⟩

/-- **The initiator side**: an aligned payload that is no longer than the bus or a multiple of it. -/
theorem bridgeRight_iff (hpos : 0 < gp.dataLength) :
    BridgeRight cfg gp ↔ (gp.dataLength ≤ cfg.busWidth ∨ cfg.busWidth ∣ gp.dataLength) ∧ Aligned cfg gp := by
  rw [← tlen_dvd_iff]
  constructor
  · rintro ⟨hin, hdel⟩
    have hdvd : tlen cfg gp ∣ gp.dataLength := by
      obtain ⟨p, hp, hdvd, hend⟩ := exists_last cfg gp 0 (Nat.dvd_zero _)
      rw [Nat.le_antisymm hend (hin p hp)]
      exact Nat.dvd_add hdvd (Nat.dvd_refl _)
    have haddr := hdel.addresses
    rw [laneBytes_eq _ hdvd hpos selected_eq] at haddr
    have hbytes := map_eq_enabledBytes_iff.1 haddr
    have hal : cfg.busWidth ∣ gp.address.toNat := by
      have h0 := (hbytes 0 hpos).2
      rw [Nat.zero_mod, Nat.add_zero, GenericPayload.byteAddr_eq, Nat.zero_mod, Nat.add_zero, BitVec.ofNat_toNat, BitVec.setWidth_eq] at h0
      rw [← h0]
      exact Nat.dvd_mul_left _ _
    exact ⟨hdvd, hal, fun k hk => ⟨(hbytes k hk).1, (inPlace_iff hal hk).1 (hbytes k hk).2⟩⟩
  · rintro ⟨hdvd, hal⟩
    refine ⟨fun p hp => ?_, delivered_of_aligned hdvd hpos hal selected_eq (fun k hk => (inPlace_iff hal.1 hk).2 (hal.2 k hk).2) fun _ => rfl⟩
    obtain ⟨q, hq⟩ := hdvd
    rw [Nat.mul_comm] at hq
    rw [positions_eq hq hpos] at hp
    obtain ⟨j, hj, rfl⟩ := List.mem_map.1 hp
    rw [hq, ← Nat.add_one_mul]
    exact Nat.mul_le_mul_right _ (List.mem_range.1 hj)

/-! ### Behind the target side -/

theorem enabled_eq_true (c : Cycle) (l : ℕ) : (wbThread cfg c).enabled l = true := rfl

theorem accessed_eq (cfg : Config) (c : Cycle) : (List.range (wbThread cfg c).dataLength).filter (wbThread cfg c).enabled = List.range cfg.busWidth :=
  List.filter_eq_self.2 fun l _ => enabled_eq_true c l

/-- One cycle accesses as many bytes as the bus is wide. -/
theorem busWidth_le (hle : gp.dataLength ≤ cfg.busWidth) (h : TargetRight cfg gp) : cfg.busWidth ≤ gp.dataLength := by
  have hlist : positions cfg gp 0 = [0] := by
    rw [positions, if_neg]
    rw [tlen, Nat.min_eq_right hle, Nat.zero_add]
    exact Nat.lt_irrefl _
  have haddr := congrArg List.length h.addresses
  rw [laneBytes, hlist, List.flatMap_singleton, List.length_map, accessed_eq, List.length_range] at haddr
  calc cfg.busWidth = _ := haddr
    _ ≤ (List.range gp.dataLength).length := List.length_filterMap_le _ _
    _ = gp.dataLength := List.length_range

/-- The addresses of an aligned access are those of the lanes. -/
theorem byteAddr_lane {p l : ℕ} (hdvd : cfg.busWidth ∣ (gp.address + BitVec.ofNat 64 p).toNat) (hl : l < cfg.busWidth) :
    ((wbThread cfg (cycle cfg gp p)).byteAddr l).toNat = (cycle cfg gp p).adr / cfg.busWidth * cfg.busWidth + l := by
  have hadr : cfg.busWidth ∣ (cycle cfg gp p).adr := by
    unfold cycle
    rw [busWidth_eq] at hdvd ⊢
    rcases Nat.le_total (if cfg.wide = true then 3 else 2) cfg.addrWidth with hle | hle
    · exact (Nat.dvd_mod_iff (pow_dvd_pow 2 hle)).2 hdvd
    · dsimp only
      rw [Nat.mod_eq_zero_of_dvd ((pow_dvd_pow 2 hle).trans hdvd)]
      exact Nat.dvd_zero _
  have hlt : (cycle cfg gp p).adr < 2 ^ 64 := (Nat.mod_le _ _).trans_lt (BitVec.isLt _)
  have haddr : ((wbThread cfg (cycle cfg gp p)).address).toNat = (cycle cfg gp p).adr := by
    change (BitVec.ofNat 64 _).toNat = _
    rw [BitVec.toNat_ofNat, Nat.mod_eq_of_lt hlt]
  have hwidth : (wbThread cfg (cycle cfg gp p)).streamingWidth = cfg.busWidth := rfl
  rw [GenericPayload.byteAddr_eq, haddr, hwidth, Nat.mod_eq_of_lt hl, BitVec.toNat_ofNat, Nat.mod_eq_of_lt (add_lt_of_dvd hadr busWidth_dvd hlt hl),
    Nat.div_mul_cancel hadr]

theorem targetRight_iff (hright : BridgeRight cfg gp) (hpos : 0 < gp.dataLength) : TargetRight cfg gp ↔ cfg.busWidth ∣ gp.dataLength := by
  obtain ⟨hlen, hal⟩ := (bridgeRight_iff hpos).1 hright
  constructor
  · intro h
    rcases hlen with hle | hdvd
    · rw [Nat.le_antisymm (busWidth_le hle h) hle]
    · exact hdvd
  · intro hdvd
    have hle : cfg.busWidth ≤ gp.dataLength := Nat.le_of_dvd hpos hdvd
    have ht : tlen cfg gp = cfg.busWidth := Nat.min_eq_left hle
    have hacc (p : ℕ) := ht ▸ accessed_eq cfg (cycle cfg gp p)
    refine delivered_of_aligned (tlen_dvd_iff.2 hlen) hpos hal hacc (fun k hk => ?_) fun _ => rfl
    rw [byteAddr_lane (dvd_chunk hal.1 hk) (ht ▸ Nat.mod_lt _ (tlen_pos hpos))]
    exact (inPlace_iff hal.1 hk).2 (hal.2 k hk).2

/-- **The bridges, exactly.** -/
theorem wishbone_right_iff (cfg : Config) (gp : GenericPayload) :
    BridgeRight cfg gp ∧ TargetRight cfg gp ↔ 0 < gp.dataLength ∧ cfg.busWidth ∣ gp.dataLength ∧ Aligned cfg gp := by
  rcases Nat.eq_zero_or_pos gp.dataLength with hzero | hpos
  · refine iff_of_false (fun h => ?_) fun h => Nat.pos_iff_ne_zero.1 h.1 hzero
    exact absurd (busWidth_le (hzero ▸ Nat.zero_le _) h.2) (by rw [hzero]; exact Nat.not_le.2 (busWidth_pos cfg))
  · constructor
    · rintro ⟨hbridge, htarget⟩
      exact ⟨hpos, (targetRight_iff hbridge hpos).1 htarget, ((bridgeRight_iff hpos).1 hbridge).2⟩
    · rintro ⟨-, hdvd, hal⟩
      have hbridge := (bridgeRight_iff hpos).2 ⟨.inr hdvd, hal⟩
      exact ⟨hbridge, (targetRight_iff hbridge hpos).2 hdvd⟩

/-- A byte that is written to address 1 selects the lane of address 0. -/
theorem not_wishbone_right :
    ¬BridgeRight ⟨false, 32⟩ { command := .write, address := 1, dataLength := 1, streamingWidth := 1 } := by
  intro h
  exact absurd ((bridgeRight_iff (by decide)).1 h).2.1 (by decide)

end LibSystemCTLM.Wishbone
