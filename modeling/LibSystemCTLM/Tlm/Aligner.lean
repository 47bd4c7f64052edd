import LibSystemCTLM.Foundation.Bursts
import LibSystemCTLM.Tlm.Payload

/-!
# `tlm_aligner`

`b_transport` of the proxy that chops a payload into several (`tlm-aligner.h`), with a target that
answers OK. A chunk ends at `max_len`, at the address boundary, at the natural alignment of its address
and, as it is needed, at the end of the streaming window or of the bus. Together the chunks access what
the payload would (`preserves_iff`), unless there are so many byte enables that the size of the buffer
with their two copies wraps.

## Honest scope

A streaming width of zero is the length of the data, for the aligner as for its target. A bus has
at least one byte. What the target reads or writes through the data pointer of a chunk is stated by where
the chunk accesses it.
-/

namespace LibSystemCTLM.Tlm

open Foundation

/-- The parameters of a `tlm_aligner`. A bus has at least one byte. -/
structure Aligner where
  busWidth : ℕ
  maxLen : ℕ := 256 * 1024
  maxAddressBoundary : ℕ := 4 * 1024
  doNaturalAlignment : Bool := false
  validate : Option (Addr → ℕ → ℕ → Bool) := none
  busWidth_le : 8 ≤ busWidth

/-- `compute_natural_alignment`. -/
def naturalAlignment (addr : Addr) : ℕ := if addr = 0 then 2 ^ 64 - 1 else (addr &&& -addr).toNat

namespace Aligner

variable (a : Aligner) (trans : GenericPayload)

/-- `compute_max_addr_range`, at the natural alignment of the address. -/
def maxAddrRange (addr : Addr) : ℕ :=
  let len := min a.maxLen (a.maxAddressBoundary - addr.toNat % a.maxAddressBoundary)
  if a.doNaturalAlignment = true then min len (naturalAlignment addr - addr.toNat % naturalAlignment addr) else len

/-- `streaming_width` after the FIXME. -/
def streamingWidth : ℕ := if trans.streamingWidth = 0 then trans.dataLength else trans.streamingWidth

/-- The payload is just forwarded. -/
def FastPath : Prop :=
  (a.doNaturalAlignment = false ∨ trans.address.toNat % naturalAlignment trans.address = 0) ∧ trans.dataLength < a.maxLen ∧
    trans.dataLength = a.maxAddrRange trans.address ∧ streamingWidth trans = trans.dataLength

instance : Decidable (a.FastPath trans) := inferInstanceAs (Decidable (_ ∧ _))

/-- `t_addr`. -/
def chunkAddr (pos : ℕ) : Addr := trans.address + BitVec.ofNat 64 (pos % streamingWidth trans)

/-- `t_len` and the streaming width of `gp`, which had the one before. -/
def chunk (gpWidth pos : ℕ) : ℕ × ℕ :=
  let width := streamingWidth trans
  let tAddr := chunkAddr trans pos
  let tLen := min (trans.dataLength - pos) (a.maxAddrRange tAddr)
  if pos % width ≠ 0 then (min tLen (width - pos % width), min tLen (width - pos % width))
  else if width ≠ trans.dataLength then
    if (a.validate.any fun validate => validate tAddr tLen width) = true then (tLen, width)
    else (min tLen (min (a.busWidth / 8) width), min tLen (min (a.busWidth / 8) width))
  else (tLen, gpWidth)

/-- The window on the two copies of the byte enables. -/
def window (pos : ℕ) : List Byte :=
  ((trans.byteEnable ++ trans.byteEnable).drop (pos % trans.byteEnable.length)).take trans.byteEnable.length

/-- The sub-transaction of a chunk, with its data pointer. -/
def sub (pos : ℕ) (c : ℕ × ℕ) : ℕ × GenericPayload :=
  (pos, { trans with
    address := chunkAddr trans pos
    data := fun k => trans.data (pos + k)
    dataLength := c.1
    byteEnable := window trans pos
    streamingWidth := c.2 })

/-- The loop, with its assertions. -/
def chop (gpWidth pos : ℕ) : Option (List (ℕ × GenericPayload)) :=
  if pos < trans.dataLength then
    let c := a.chunk trans gpWidth pos
    if 0 < c.1 ∧ c.1 ≤ a.maxLen then (chop c.2 (pos + c.1)).map fun l => sub trans pos c :: l
    else none
  else some []
termination_by trans.dataLength - pos
decreasing_by
  rename_i hlt hc
  have hpos : 0 < (a.chunk trans gpWidth pos).1 := hc.1
  omega

/-- `b_transport`: the sub-transactions with their data pointers. It divides by the address boundary, and
copies the byte enables twice into a buffer of `be_len * 2` bytes. -/
def bTransport : Option (List (ℕ × GenericPayload)) :=
  if a.maxAddressBoundary = 0 then none
  else if a.FastPath trans then some [(0, trans)]
  else if 2 ^ 32 ≤ trans.byteEnable.length * 2 then none
  else a.chop trans trans.streamingWidth 0

/-! ### What is asked of it -/

/-- The bytes of the data a sub-transaction accesses, and where. -/
def accesses (t : ℕ × GenericPayload) : List (ℕ × Addr) :=
  (List.range t.2.dataLength).filterMap fun k => if t.2.enabled k = true then some (t.1 + k, t.2.byteAddr k) else none

/-- Byte `pos` of the data, if it is enabled, at its address. -/
def access (pos : ℕ) : Option (ℕ × Addr) := if trans.enabled pos = true then some (pos, chunkAddr trans pos) else none

/-- The address is a multiple of a power of two that the length does not exceed. -/
def NaturallyAligned (addr : Addr) (len : ℕ) : Prop := ∃ k, len ≤ 2 ^ k ∧ 2 ^ k ∣ addr.toNat

/-- What is asked of a sub-transaction. -/
structure Respects (t : ℕ × GenericPayload) : Prop where
  command : t.2.command = trans.command
  data : ∀ k, t.2.data k = trans.data (t.1 + k)
  maxLen : t.2.dataLength ≤ a.maxLen
  boundary : t.2.address.toNat % a.maxAddressBoundary + t.2.dataLength ≤ a.maxAddressBoundary
  aligned : a.doNaturalAlignment = true → NaturallyAligned t.2.address t.2.dataLength

/-- The sub-transactions access the enabled bytes of the data, each once and in order. -/
def Preserves : Prop :=
  ∃ l, a.bTransport trans = some l ∧ l.flatMap accesses = (List.range trans.dataLength).filterMap (access trans) ∧ ∀ t ∈ l, a.Respects trans t

/-! ### Chunks -/

theorem naturallyAligned {addr : Addr} {len : ℕ} (h : len ≤ naturalAlignment addr - addr.toNat % naturalAlignment addr) :
    NaturallyAligned addr len := by
  unfold naturalAlignment at h
  by_cases hz : addr = 0
  · subst hz
    exact ⟨64, by simp at h; omega, by simp⟩
  · rw [if_neg hz] at h
    obtain ⟨k, hk, hdvd⟩ := exists_and_neg hz
    rw [hk, Nat.mod_eq_zero_of_dvd hdvd] at h
    exact ⟨k, h, hdvd⟩

variable {a trans} {gpWidth pos : ℕ}

/-- A range of addresses that is long enough. -/
structure InRange (a : Aligner) (addr : Addr) (len : ℕ) : Prop where
  maxLen : len ≤ a.maxLen
  boundary : addr.toNat % a.maxAddressBoundary + len ≤ a.maxAddressBoundary
  aligned : a.doNaturalAlignment = true → NaturallyAligned addr len

theorem inRange {addr : Addr} {len : ℕ} (hb : 0 < a.maxAddressBoundary) (h : len ≤ a.maxAddrRange addr) : a.InRange addr len := by
  have hmod := Nat.mod_lt addr.toNat hb
  unfold maxAddrRange at h
  dsimp only at h
  split at h
  · exact ⟨by omega, by omega, fun _ => naturallyAligned (by omega)⟩
  · rename_i hnat
    exact ⟨by omega, by omega, fun h' => absurd h' hnat⟩

theorem maxAddrRange_pos {addr : Addr} (hb : 0 < a.maxAddressBoundary) (hm : 0 < a.maxLen) : 0 < a.maxAddrRange addr := by
  have hmod := Nat.mod_lt addr.toNat hb
  have hna : 0 < naturalAlignment addr := by
    unfold naturalAlignment
    split
    · decide
    · rename_i hz
      obtain ⟨k, hk, -⟩ := exists_and_neg hz
      rw [hk]
      exact Nat.two_pow_pos k
  have hmod' := Nat.mod_lt addr.toNat hna
  unfold maxAddrRange
  dsimp only
  split <;> omega

theorem chunkAddr_toNat (pos : ℕ) : chunkAddr trans pos = trans.address + BitVec.ofNat 64 (pos % streamingWidth trans) := rfl

/-- A chunk is not empty, not longer than what is left and than the range of its address, and its streaming
width has its bytes where the payload has them. -/
structure ChunkOk (a : Aligner) (trans : GenericPayload) (pos : ℕ) (c : ℕ × ℕ) : Prop where
  left : c.1 ≤ trans.dataLength - pos
  range : c.1 ≤ a.maxAddrRange (chunkAddr trans pos)
  streaming : ∀ k < c.1, (pos + k) % streamingWidth trans = pos % streamingWidth trans + k % c.2

theorem streamingWidth_pos (hpos : pos < trans.dataLength) : 0 < streamingWidth trans := by
  unfold streamingWidth
  split <;> omega

theorem chunk_ok (hpos : pos < trans.dataLength) (hw : pos = 0 → gpWidth = trans.streamingWidth) :
    ChunkOk a trans pos (a.chunk trans gpWidth pos) := by
  have hwidth := streamingWidth_pos hpos
  have hmod := Nat.mod_lt pos hwidth
  unfold chunk
  dsimp only
  split
  · -- a single beat up to the next window
    refine ⟨by dsimp only; omega, by dsimp only; omega, fun k hk => ?_⟩
    dsimp only at hk ⊢
    rw [Nat.mod_eq_of_lt hk, Nat.add_mod, Nat.mod_eq_of_lt (show k < streamingWidth trans by omega), Nat.mod_eq_of_lt (by omega)]
  · rename_i hzero
    have hzero : pos % streamingWidth trans = 0 := by omega
    have hstart : ∀ k, (pos + k) % streamingWidth trans = k % streamingWidth trans := fun k => by
      rw [Nat.add_mod, hzero, Nat.zero_add, Nat.mod_mod]
    split
    · split
      · refine ⟨by dsimp only; omega, by dsimp only; omega, fun k _ => ?_⟩
        rw [hstart, hzero, Nat.zero_add]
      · refine ⟨by dsimp only; omega, by dsimp only; omega, fun k hk => ?_⟩
        dsimp only at hk ⊢
        rw [hstart, hzero, Nat.zero_add, Nat.mod_eq_of_lt hk, Nat.mod_eq_of_lt (by omega)]
    · -- the window is the whole payload, and the chunk is the first
      rename_i hwhole
      have hwhole : streamingWidth trans = trans.dataLength := by omega
      have hfirst : pos = 0 := by
        rw [hwhole, Nat.mod_eq_of_lt hpos] at hzero
        exact hzero
      refine ⟨by dsimp only; omega, by dsimp only; omega, fun k hk => ?_⟩
      dsimp only at hk ⊢
      have hklt : k < trans.dataLength := by omega
      rw [hstart, hzero, Nat.zero_add, hw hfirst, hwhole, Nat.mod_eq_of_lt hklt]
      unfold streamingWidth at hwhole
      split at hwhole
      · rename_i hnone
        rw [hnone, Nat.mod_zero]
      · rw [hwhole, Nat.mod_eq_of_lt hklt]

theorem chunk_pos (hb : 0 < a.maxAddressBoundary) (hm : 0 < a.maxLen) (hpos : pos < trans.dataLength) : 0 < (a.chunk trans gpWidth pos).1 := by
  have hrange : 0 < a.maxAddrRange (chunkAddr trans pos) := maxAddrRange_pos hb hm
  have hwidth := streamingWidth_pos hpos
  have hmod := Nat.mod_lt pos hwidth
  have hbus : 0 < a.busWidth / 8 := Nat.div_pos a.busWidth_le (by decide)
  unfold chunk
  dsimp only
  split
  · dsimp only
    omega
  · split
    · split <;>
      · dsimp only
        omega
    · dsimp only
      omega

/-- The window has the byte enables from `pos` on. -/
theorem enabled_window (trans : GenericPayload) (pos k : ℕ) : (window trans pos).length = trans.byteEnable.length ∧
    (window trans pos)[k % (window trans pos).length]? = trans.byteEnable[(pos + k) % trans.byteEnable.length]? := by
  rcases Nat.eq_zero_or_pos trans.byteEnable.length with hnil | hpos
  · rw [List.length_eq_zero_iff] at hnil
    simp [window, hnil]
  · have hp := Nat.mod_lt pos hpos
    have hk := Nat.mod_lt k hpos
    have hlen : (window trans pos).length = trans.byteEnable.length := by
      rw [window, List.length_take, List.length_drop, List.length_append]
      omega
    refine ⟨hlen, ?_⟩
    rw [hlen, window, List.getElem?_take_of_lt hk, List.getElem?_drop, Nat.add_mod]
    by_cases hwrap : pos % trans.byteEnable.length + k % trans.byteEnable.length < trans.byteEnable.length
    · rw [List.getElem?_append_left hwrap, Nat.mod_eq_of_lt hwrap]
    · have hsub : (pos % trans.byteEnable.length + k % trans.byteEnable.length) % trans.byteEnable.length =
          pos % trans.byteEnable.length + k % trans.byteEnable.length - trans.byteEnable.length := by
        rw [Nat.mod_eq_sub_mod (by omega), Nat.mod_eq_of_lt (by omega)]
      rw [List.getElem?_append_right (by omega), hsub]

theorem sub_enabled (c : ℕ × ℕ) (k : ℕ) : (sub trans pos c).2.enabled k = trans.enabled (pos + k) := by
  obtain ⟨hlen, hget⟩ := enabled_window trans pos k
  have hempty : (window trans pos).isEmpty = trans.byteEnable.isEmpty := by
    rw [Bool.eq_iff_iff, List.isEmpty_iff_length_eq_zero, List.isEmpty_iff_length_eq_zero, hlen]
  simp only [GenericPayload.enabled, sub, hget, hempty]

theorem accesses_sub {c : ℕ × ℕ} (hc : ChunkOk a trans pos c) : accesses (sub trans pos c) = (List.range' pos c.1).filterMap (access trans) := by
  rw [accesses, List.range'_eq_map_range, List.filterMap_map]
  refine List.filterMap_congr fun k hk => ?_
  rw [List.mem_range] at hk
  have haddr : (sub trans pos c).2.byteAddr k = chunkAddr trans (pos + k) := by
    rw [chunkAddr_toNat, hc.streaming k hk, BitVec.ofNat_add, ← BitVec.add_assoc]
    rfl
  rw [sub_enabled, haddr]
  rfl

theorem respects_sub {c : ℕ × ℕ} (hb : 0 < a.maxAddressBoundary) (hc : ChunkOk a trans pos c) : a.Respects trans (sub trans pos c) := by
  have hrange := inRange hb hc.range
  exact ⟨rfl, fun _ => rfl, hrange.maxLen, hrange.boundary, hrange.aligned⟩

/-- The chunks from `pos` on access the rest of the data. -/
theorem chop_spec (hb : 0 < a.maxAddressBoundary) (hm : 0 < a.maxLen) (hw : pos = 0 → gpWidth = trans.streamingWidth) :
    ∃ l, a.chop trans gpWidth pos = some l ∧
      l.flatMap accesses = (List.range' pos (trans.dataLength - pos)).filterMap (access trans) ∧ ∀ t ∈ l, a.Respects trans t := by
  induction gpWidth, pos using chop.induct a trans with
  | case1 gpWidth pos hpos c hc ih =>
    have hok : ChunkOk a trans pos c := chunk_ok hpos hw
    obtain ⟨l, hl, hacc, hres⟩ := ih (by omega)
    refine ⟨sub trans pos c :: l, ?_, ?_, ?_⟩
    · rw [chop, if_pos hpos]
      dsimp only
      rw [if_pos hc, hl]
      rfl
    · have hsplit : List.range' pos (trans.dataLength - pos) = List.range' pos c.1 ++ List.range' (pos + c.1) (trans.dataLength - (pos + c.1)) := by
        have hleft := hok.left
        rw [List.range'_append_1]
        congr 1
        omega
      rw [List.flatMap_cons, hacc, accesses_sub hok, hsplit, List.filterMap_append]
    · exact List.forall_mem_cons.2 ⟨respects_sub hb hok, hres⟩
  | case2 gpWidth pos hpos c hc =>
    have hok : ChunkOk a trans pos c := chunk_ok hpos hw
    exact absurd ⟨chunk_pos hb hm hpos, (inRange hb hok.range).maxLen⟩ hc
  | case3 gpWidth pos hpos =>
    refine ⟨[], ?_, ?_, fun t ht => absurd ht List.not_mem_nil⟩
    · rw [chop, if_neg hpos]
    · have hnone : trans.dataLength - pos = 0 := by omega
      rw [hnone]
      rfl

/-- What the loop makes are chunks, of which only one at the start has the streaming width it was given. -/
theorem mem_chop {t : ℕ × GenericPayload} : ∀ {l : List (ℕ × GenericPayload)}, a.chop trans gpWidth pos = some l → t ∈ l →
    ∃ w p, p < trans.dataLength ∧ (p = 0 → pos = 0 ∧ w = gpWidth) ∧ 0 < (a.chunk trans w p).1 ∧ t = sub trans p (a.chunk trans w p) := by
  induction gpWidth, pos using chop.induct a trans with
  | case1 gpWidth pos hpos c hc =>
    rename_i ih
    intro l h ht
    rw [chop, if_pos hpos] at h
    dsimp only at h
    rw [if_pos hc] at h
    obtain ⟨l', hl', rfl⟩ := Option.map_eq_some_iff.1 h
    rcases List.mem_cons.1 ht with rfl | ht
    · exact ⟨gpWidth, pos, hpos, fun h0 => ⟨h0, rfl⟩, hc.1, rfl⟩
    · obtain ⟨w, p, hp, hw, hlen, rfl⟩ := ih hl' ht
      exact ⟨w, p, hp, fun h0 => absurd (hw h0).1 (by omega), hlen, rfl⟩
  | case2 gpWidth pos hpos c =>
    rename_i hc
    intro l h ht
    rw [chop, if_pos hpos] at h
    dsimp only at h
    rw [if_neg hc] at h
    cases h
  | case3 gpWidth pos hpos =>
    intro l h ht
    rw [chop, if_neg hpos] at h
    obtain rfl := Option.some.inj h
    exact absurd ht List.not_mem_nil

/-! ### `b_transport` -/

/-- A payload the aligner can chop. -/
def Accepts (a : Aligner) (trans : GenericPayload) : Prop :=
  0 < a.maxAddressBoundary ∧ (a.FastPath trans ∨ (trans.byteEnable.length * 2 < 2 ^ 32 ∧ (trans.dataLength = 0 ∨ 0 < a.maxLen)))

/-- The payload itself, as it is forwarded. -/
theorem accesses_fast : accesses (0, trans) = (List.range trans.dataLength).filterMap (access trans) := by
  rw [accesses]
  refine List.filterMap_congr fun k hk => ?_
  have haddr : trans.byteAddr k = chunkAddr trans k := by
    rw [GenericPayload.byteAddr, chunkAddr_toNat]
    unfold streamingWidth
    split
    · rename_i hzero
      rw [hzero, Nat.mod_zero, Nat.mod_eq_of_lt (List.mem_range.1 hk)]
    · rfl
  dsimp only
  rw [Nat.zero_add, haddr]
  rfl

theorem bTransport_fast (hb : 0 < a.maxAddressBoundary) (hfast : a.FastPath trans) : a.Preserves trans := by
  refine ⟨[(0, trans)], ?_, ?_, fun t ht => ?_⟩
  · rw [bTransport, if_neg (Nat.pos_iff_ne_zero.1 hb), if_pos hfast]
  · rw [List.flatMap_singleton, accesses_fast]
  · have hrange := inRange hb (Nat.le_of_eq hfast.2.2.1)
    rw [List.mem_singleton.1 ht]
    exact ⟨rfl, fun k => by dsimp only; rw [Nat.zero_add], hrange.maxLen, hrange.boundary, hrange.aligned⟩

/-- **The aligner.** The sub-transactions access what the payload does, each byte once and in order, within the
limits, exactly if the buffer for the byte enables can be allocated and the limits are not zero. -/
theorem preserves_iff (a : Aligner) (trans : GenericPayload) : a.Preserves trans ↔ a.Accepts trans := by
  constructor
  · rintro ⟨l, hl, -, -⟩
    rw [bTransport] at hl
    split at hl
    · cases hl
    · rename_i hb
      refine ⟨Nat.pos_iff_ne_zero.2 hb, ?_⟩
      split at hl
      · rename_i hfast
        exact .inl hfast
      · right
        split at hl
        · cases hl
        · rename_i hbe
          refine ⟨by omega, ?_⟩
          by_contra hbad
          have hpos : 0 < trans.dataLength := by omega
          rw [chop, if_pos hpos] at hl
          dsimp only at hl
          rw [if_neg (by omega)] at hl
          cases hl
  · rintro ⟨hb, hfast | ⟨hbe, hlen⟩⟩
    · exact bTransport_fast hb hfast
    · by_cases hfast : a.FastPath trans
      · exact bTransport_fast hb hfast
      · have hstart : a.bTransport trans = a.chop trans trans.streamingWidth 0 := by
          rw [bTransport, if_neg (Nat.pos_iff_ne_zero.1 hb), if_neg hfast, if_neg (by omega)]
        rw [Preserves, hstart, List.range_eq_range']
        rcases hlen with hzero | hm
        · refine ⟨[], ?_, ?_, fun t ht => absurd ht List.not_mem_nil⟩
          · rw [chop, if_neg (by omega)]
          · rw [hzero]
            rfl
        · exact chop_spec hb hm fun _ => rfl

/-- A payload that must be chopped and has too many byte enables. -/
theorem not_preserves {n : ℕ} (hfast : ¬ a.FastPath trans) (hlen : trans.byteEnable.length = n) (hbe : 2 ^ 32 ≤ n * 2) : ¬ a.Preserves trans := by
  rintro ⟨l, hl, -, -⟩
  rw [bTransport, if_neg hfast, hlen, if_pos hbe] at hl
  split at hl <;> cases hl

/-- Byte enables whose two copies have a size that wraps to zero. -/
theorem not_preserves_manyEnables : ¬ ∀ (a : Aligner) (trans : GenericPayload), a.Preserves trans := by
  intro h
  refine not_preserves (fun hfast => ?_) List.length_replicate (Nat.le_refl _) (h { busWidth := 32, busWidth_le := by decide }
    { command := .write, dataLength := 4, byteEnable := List.replicate (2 ^ 31) byteEnabled, streamingWidth := 4 })
  have hrange : maxAddrRange { busWidth := 32, busWidth_le := by decide } 0 = 4096 := rfl
  have hlen : 4 = maxAddrRange { busWidth := 32, busWidth_le := by decide } 0 := hfast.2.2.1
  omega

end Aligner

end LibSystemCTLM.Tlm
