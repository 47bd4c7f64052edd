import LibSystemCTLM.Tlm.Payload
import Mathlib.Data.BitVec

/-!
# Windows into memory

`tlm2vfio_bridge` and `tlm2native_bridge` access a mapping of the host for the transactions they are given, and grant
direct access to it. The first one finds out that an access leaves the mapping, sets the status, and goes on; and what
it grants does not take its offset into account. The second one compares a sum that may wrap, and what it refuses it
reports as fatal before it returns. Its direct access is right for every size, where the size 0 stands for all of the
memory. What is left of the accesses is said exactly (`window_right_iff`).
-/

namespace LibSystemCTLM.Windows

open Tlm

/-- A payload with its byte enable pointer, which may be set without a length. -/
structure Access extends GenericPayload where
  be : Bool
  be_of : byteEnable ≠ [] → be = true

/-- What an access leaves behind: the bytes of the mapping it has touched, the mapping, and the payload. -/
structure Outcome where
  touched : List Addr
  mem : Addr → Byte
  data : ℕ → Byte
  response : Response

/-- What is granted: a range of addresses, of which the pointer is to the start of the mapping. -/
structure Dmi where
  start : Addr
  last : Addr

variable (gp : Access) (mem : Addr → Byte)

/-- A refusal. -/
def refusal : Outcome := ⟨[], mem, gp.data, .error⟩

/-- The effect of an access to `loc k` for each byte `k` that `on` tells to access. -/
def transfer (on : ℕ → Bool) (loc : ℕ → Addr) : Outcome where
  touched := ((List.range gp.dataLength).filter on).map loc
  mem := if gp.isRead = true then mem else ((List.range gp.dataLength).filter on).foldl (fun mem k => Function.update mem (loc k) (gp.data k)) mem
  data := fun k => if gp.isRead = true ∧ k < gp.dataLength ∧ on k = true then mem (loc k) else gp.data k
  response := .ok

/-! ### `tlm2vfio_bridge` -/

/-- The mapped region, and where the window starts in it. -/
structure Vfio where
  mapSize : Addr
  offset : Addr

namespace Vfio

variable (w : Vfio)

/-- `b_transport`. An access that leaves the mapping gets its status, which the access sets again. -/
def bTransport : Outcome :=
  if gp.be = true then refusal gp mem
  else if gp.streamingWidth ≠ 0 ∧ gp.streamingWidth < gp.dataLength then refusal gp mem
  else
    let addr := gp.address + w.offset
    let response := if w.mapSize < addr + BitVec.ofNat 64 gp.dataLength then Response.error else gp.response
    { transfer { gp with response := response } mem (fun _ => true) fun k => addr + BitVec.ofNat 64 k with response := .ok }

/-- `get_direct_mem_ptr`. -/
def getDirectMemPtr : Dmi := ⟨0, w.mapSize - 1⟩

/-- A byte of the mapping. -/
def Inside (a : Addr) : Prop := a < w.mapSize

end Vfio

/-! ### `tlm2native_bridge` -/

/-- The size of the memory, of which 0 is no limit, and whether the handler of fatal reports returns. -/
structure Native where
  size : Addr
  fatalReturns : Bool

namespace Native

variable (n : Native)

/-- `streaming_width`. -/
def streamingWidth : ℕ := if gp.streamingWidth = 0 then gp.dataLength else gp.streamingWidth

/-- What is reported as unsupported: the sum is one of 64 bits. -/
def Unsupported : Prop := n.size < gp.address + BitVec.ofNat 64 (min gp.dataLength (streamingWidth gp)) ∧ 0 < n.size

instance : Decidable (n.Unsupported gp) := inferInstanceAs (Decidable (_ ∧ _))

/-- `b_transport`; `none` is a fatal report that does not return. The path without a streaming width has no data. -/
def bTransport : Option Outcome :=
  if n.Unsupported gp then if n.fatalReturns = true then some (refusal gp mem) else none
  else some (transfer gp mem gp.enabled fun k => gp.address + BitVec.ofNat 64 (k % streamingWidth gp))

/-- `get_direct_mem_ptr`. -/
def getDirectMemPtr : Dmi := ⟨0, if 0 < n.size then n.size - 1 else BitVec.allOnes 64⟩

/-- A byte of the memory. -/
def Inside (a : Addr) : Prop := n.size = 0 ∨ a < n.size

end Native

/-! ### What is asked of them -/

/-- Byte `k` of the payload is in the mapping, `offset` from where the payload has it. -/
def Performed (Inside : Addr → Prop) (offset : Addr) (o : Outcome) : Prop :=
  o.response = .ok ∧ o.touched = ((List.range gp.dataLength).filter gp.enabled).map (fun k => gp.byteAddr k + offset) ∧
    ∀ a ∈ o.touched, Inside a

/-- An access is performed inside of the mapping, or refused without any effect. -/
def AccessRight (Inside : Addr → Prop) (offset : Addr) (o : Option Outcome) : Prop :=
  ∃ o', o = some o' ∧ (Performed gp Inside offset o' ∨ o' = refusal gp mem)

/-- Each address that is granted stands for the byte of the mapping that an access to it touches. -/
def DmiRight (Inside : Addr → Prop) (offset : Addr) (dmi : Dmi) : Prop :=
  ∀ x, dmi.start ≤ x → x ≤ dmi.last → x - dmi.start = x + offset ∧ Inside (x + offset)

/-- `tlm2vfio_bridge`. -/
def VfioRight (w : Vfio) : Prop :=
  AccessRight gp mem w.Inside w.offset (some (w.bTransport gp mem)) ∧ DmiRight w.Inside w.offset w.getDirectMemPtr

/-- The access is refused for what it is, or lies in the mapping; and the window starts where a mapping starts. -/
def VfioClear (w : Vfio) : Prop :=
  (gp.be = true ∨ (gp.streamingWidth ≠ 0 ∧ gp.streamingWidth < gp.dataLength) ∨ gp.dataLength = 0 ∨
    (gp.address + w.offset).toNat + gp.dataLength ≤ w.mapSize.toNat) ∧ w.offset = 0 ∧ 0 < w.mapSize

/-- `tlm2native_bridge`. -/
def NativeRight (n : Native) : Prop := AccessRight gp mem n.Inside 0 (n.bTransport gp mem) ∧ DmiRight n.Inside 0 n.getDirectMemPtr

/-- A fatal report returns, if there is one; and where the sum wraps, the enabled bytes are in the memory. -/
def NativeClear (n : Native) : Prop :=
  if n.Unsupported gp then n.fatalReturns = true
  else 2 ^ 64 ≤ gp.address.toNat + min gp.dataLength (Native.streamingWidth gp) →
    ∀ k < gp.dataLength, gp.enabled k = true → n.Inside (gp.byteAddr k)

variable {gp mem} {Inside : Addr → Prop} {offset : Addr} {k len : ℕ}

theorem toNat_add_ofNat {x : Addr} (h : x.toNat + k < 2 ^ 64) : (x + BitVec.ofNat 64 k).toNat = x.toNat + k := by
  rw [BitVec.toNat_add, BitVec.toNat_ofNat, Nat.add_mod_mod, Nat.mod_eq_of_lt h]

/-- The bytes from an address on are in the mapping. -/
theorem forall_inside_iff {x size : Addr} : (∀ k < len, x + BitVec.ofNat 64 k < size) ↔ len = 0 ∨ x.toNat + len ≤ size.toNat := by
  have hsize := size.isLt
  constructor
  · intro h
    rcases Nat.eq_zero_or_pos len with hzero | hpos
    · exact .inl hzero
    · refine .inr (Nat.le_of_not_lt fun hlt => ?_)
      have hx : x.toNat < size.toNat := by
        have h0 := BitVec.lt_def.1 (h 0 hpos)
        rwa [toNat_add_ofNat x.isLt] at h0
      -- the first byte behind the mapping
      have hend := BitVec.lt_def.1 (h (size.toNat - x.toNat) (by omega))
      rw [toNat_add_ofNat (by omega)] at hend
      omega
  · intro h k hk
    rw [BitVec.lt_def, toNat_add_ofNat (by omega)]
    omega

theorem accessRight_refusal : AccessRight gp mem Inside offset (some (refusal gp mem)) := ⟨_, rfl, .inr rfl⟩

/-- An access that is performed is right if the bytes it should touch are those it touches and are inside. -/
theorem accessRight_of_touched {o : Outcome} (hok : o.response = .ok)
    (htouched : o.touched = ((List.range gp.dataLength).filter gp.enabled).map (fun k => gp.byteAddr k + offset)) :
    AccessRight gp mem Inside offset (some o) ↔ ∀ k < gp.dataLength, gp.enabled k = true → Inside (gp.byteAddr k + offset) := by
  have hall : (∀ a ∈ o.touched, Inside a) ↔ ∀ k < gp.dataLength, gp.enabled k = true → Inside (gp.byteAddr k + offset) := by
    rw [htouched]
    simp only [List.forall_mem_map, List.mem_filter, List.mem_range, and_imp]
  rw [← hall]
  constructor
  · rintro ⟨o', ho', h⟩
    obtain rfl := Option.some.inj ho'
    rcases h with h | h
    · exact h.2.2
    · rw [h] at hok
      cases hok
  · intro h
    exact ⟨o, rfl, .inl ⟨hok, htouched, h⟩⟩

/-- It is enough that the bytes below the length are the same. -/
theorem touched_eq {on on' : ℕ → Bool} {loc loc' : ℕ → Addr} (hon : ∀ k < len, on k = on' k) (hloc : ∀ k < len, loc k = loc' k) :
    ((List.range len).filter on).map loc = ((List.range len).filter on').map loc' := by
  rw [List.filter_congr fun k hk => hon k (List.mem_range.1 hk)]
  exact List.map_congr_left fun k hk => hloc k (List.mem_range.1 (List.mem_of_mem_filter hk))

/-! ### `tlm2vfio_bridge` -/

theorem enabled_of_not_be (h : gp.be ≠ true) (k : ℕ) : gp.enabled k = true := by
  have hnil : gp.byteEnable = [] := by
    by_contra hne
    exact h (gp.be_of hne)
  rw [GenericPayload.enabled, hnil]
  rfl

/-- Without streaming a byte is where its index is. -/
theorem byteAddr_of_lt (h : gp.streamingWidth = 0 ∨ gp.dataLength ≤ gp.streamingWidth) (hk : k < gp.dataLength) :
    gp.byteAddr k = gp.address + BitVec.ofNat 64 k := by
  have hmod : k % gp.streamingWidth = k := by
    rcases h with h | h
    · rw [h, Nat.mod_zero]
    · exact Nat.mod_eq_of_lt (hk.trans_le h)
  rw [GenericPayload.byteAddr, hmod]

theorem vfio_access_iff (w : Vfio) : AccessRight gp mem w.Inside w.offset (some (w.bTransport gp mem)) ↔
    gp.be = true ∨ (gp.streamingWidth ≠ 0 ∧ gp.streamingWidth < gp.dataLength) ∨ gp.dataLength = 0 ∨
      (gp.address + w.offset).toNat + gp.dataLength ≤ w.mapSize.toNat := by
  unfold Vfio.bTransport
  by_cases hbe : gp.be = true
  · rw [if_pos hbe]
    exact iff_of_true accessRight_refusal (.inl hbe)
  · rw [if_neg hbe, or_iff_right hbe]
    by_cases hsw : gp.streamingWidth ≠ 0 ∧ gp.streamingWidth < gp.dataLength
    · rw [if_pos hsw]
      exact iff_of_true accessRight_refusal (.inl hsw)
    · have hplace : ∀ k < gp.dataLength, gp.byteAddr k + w.offset = gp.address + w.offset + BitVec.ofNat 64 k := fun k hk => by
        rw [byteAddr_of_lt (by omega) hk, add_right_comm]
      rw [if_neg hsw, or_iff_right hsw, ← forall_inside_iff]
      refine (accessRight_of_touched rfl (touched_eq (fun k hk => (enabled_of_not_be hbe k).symm) fun k hk => (hplace k hk).symm)).trans
        ⟨fun h k hk => ?_, fun h k hk _ => ?_⟩
      · exact hplace k hk ▸ h k hk (enabled_of_not_be hbe k)
      · exact (hplace k hk).symm ▸ h k hk

theorem lt_of_le_sub_one {x size : Addr} (hpos : 0 < size) (hle : x ≤ size - 1) : x < size := by bv_omega

theorem vfio_dmi_iff (w : Vfio) : DmiRight w.Inside w.offset w.getDirectMemPtr ↔ w.offset = 0 ∧ 0 < w.mapSize := by
  unfold DmiRight Vfio.getDirectMemPtr Vfio.Inside
  constructor
  · intro h
    obtain ⟨heq, hin⟩ := h 0 (BitVec.le_refl _) (BitVec.le_def.2 (Nat.zero_le _))
    have hoffset : w.offset = 0 := by grind
    exact ⟨hoffset, by rwa [hoffset, add_zero] at hin⟩
  · rintro ⟨hoffset, hpos⟩ x - hle
    rw [hoffset, sub_zero, add_zero]
    exact ⟨rfl, lt_of_le_sub_one hpos hle⟩

/-! ### `tlm2native_bridge` -/

/-- Where the sum does not wrap, what is supported is in the memory. -/
theorem native_inside {n : Native} (hun : ¬n.Unsupported gp) (hlt : gp.address.toNat + min gp.dataLength (Native.streamingWidth gp) < 2 ^ 64)
    (hk : k < gp.dataLength) : n.Inside (gp.address + BitVec.ofNat 64 (k % Native.streamingWidth gp)) := by
  rcases Decidable.em (n.size = 0) with hzero | hsize
  · exact .inl hzero
  · have hpos : 0 < n.size := by bv_omega
    have hle : gp.address.toNat + min gp.dataLength (Native.streamingWidth gp) ≤ n.size.toNat := by
      have hnot := fun h => hun ⟨h, hpos⟩
      rw [BitVec.lt_def, toNat_add_ofNat hlt] at hnot
      exact Nat.not_lt.1 hnot
    have hmod : k % Native.streamingWidth gp < min gp.dataLength (Native.streamingWidth gp) := by
      refine Nat.lt_min.2 ⟨(Nat.mod_le _ _).trans_lt hk, Nat.mod_lt _ ?_⟩
      unfold Native.streamingWidth
      split <;> omega
    right
    rw [BitVec.lt_def, toNat_add_ofNat (by omega)]
    omega

theorem native_access_iff (n : Native) : AccessRight gp mem n.Inside 0 (n.bTransport gp mem) ↔ NativeClear gp n := by
  unfold Native.bTransport NativeClear
  by_cases hun : n.Unsupported gp
  · rw [if_pos hun, if_pos hun]
    by_cases hret : n.fatalReturns = true
    · rw [if_pos hret]
      exact iff_of_true accessRight_refusal hret
    · rw [if_neg hret]
      refine iff_of_false (fun h => ?_) hret
      obtain ⟨o, ho, -⟩ := h
      cases ho
  · have hplace : ∀ k < gp.dataLength, gp.address + BitVec.ofNat 64 (k % Native.streamingWidth gp) = gp.byteAddr k + 0 := fun k hk => by
      rw [add_zero, GenericPayload.byteAddr, Native.streamingWidth]
      split
      · rename_i hzero
        rw [hzero, Nat.mod_zero, Nat.mod_eq_of_lt hk]
      · rfl
    rw [if_neg hun, if_neg hun, accessRight_of_touched rfl (touched_eq (fun _ _ => rfl) hplace)]
    simp only [add_zero]
    refine ⟨fun h _ => h, fun h k hk hen => ?_⟩
    rcases Nat.lt_or_ge (gp.address.toNat + min gp.dataLength (Native.streamingWidth gp)) (2 ^ 64) with hlt | hge
    · rw [← add_zero (gp.byteAddr k), ← hplace k hk]
      exact native_inside hun hlt hk
    · exact h hge k hk hen

theorem native_dmi (n : Native) : DmiRight n.Inside 0 n.getDirectMemPtr := by
  unfold Native.getDirectMemPtr
  rintro x - hle
  rw [sub_zero, add_zero]
  refine ⟨rfl, ?_⟩
  dsimp only at hle
  by_cases hpos : 0 < n.size
  · rw [if_pos hpos] at hle
    exact .inr (lt_of_le_sub_one hpos hle)
  · exact .inl (by bv_omega)

/-- **The windows, exactly.** -/
theorem window_right_iff (w : Vfio) (n : Native) (gp : Access) (mem : Addr → Byte) :
    (VfioRight gp mem w ↔ VfioClear gp w) ∧ (NativeRight gp mem n ↔ NativeClear gp n) :=
  ⟨and_congr (vfio_access_iff w) (vfio_dmi_iff w), by rw [NativeRight, and_iff_left (native_dmi n)]; exact native_access_iff n⟩

/-- Behind the end of the mapping. -/
theorem not_window_right : ¬VfioRight { command := .write, address := 16, dataLength := 4, be := false, be_of := fun h => absurd rfl h } (fun _ => 0) ⟨16, 0⟩ := by
  intro h
  exact absurd ((vfio_access_iff _).1 h.1) (by decide)

end LibSystemCTLM.Windows
