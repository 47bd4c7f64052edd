import LibSystemCTLM.Soc.Iconnect

/-!
# Direct memory through the interconnect

A target answers a request for direct memory with a range of its own addresses, which `get_direct_mem_ptr` translates
back with `unmap_offset`. That function takes the number of the target's socket for the number of its slot, wants both
ends of the range inside of a relative region, also where nothing is granted, and knows nothing of the offset of the
initiator; `invalidate_direct_mem_ptr` instead subtracts the offset of the initiator that has the number of the target.
What is right all the same (`Right`) is told by the slots alone (`Clear`, `dmiEvent_right_iff`).
-/

namespace LibSystemCTLM.Soc

open Tlm

namespace MemmapEntry

variable (e : MemmapEntry) (a : Addr)

/-- What lies between an address and the one passed on. -/
def base : Addr :=
  match e.addrmode with
  | .relative => e.addr
  | .absolute => 0

/-- An address of the target that `unmap_offset` accepts. -/
def Inside : Prop :=
  match e.addrmode with
  | .relative => a < e.size
  | .absolute => True

variable {e a}

theorem Inside.of_le {b : Addr} (h : e.Inside b) (hle : a ≤ b) : e.Inside a := by
  unfold Inside at *
  split at h
  · exact BitVec.lt_def.2 (Nat.lt_of_le_of_lt (BitVec.le_def.1 hle) (BitVec.lt_def.1 h))
  · trivial

theorem Inside.base_or (h : e.Inside a) : e.base = 0 ∨ a ≠ BitVec.allOnes 64 := by
  unfold Inside base at *
  split at h
  · right
    rintro rfl
    have hlt : (BitVec.allOnes 64).toNat < e.size.toNat := BitVec.lt_def.1 h
    rw [BitVec.toNat_allOnes] at hlt
    exact absurd e.size.isLt (by omega)
  · exact .inl rfl

theorem offset_eq : e.offset a = a - e.base := by
  unfold offset base
  cases e.addrmode
  · rfl
  · exact (BitVec.sub_zero a).symm

end MemmapEntry

/-- The answer of `get_direct_mem_ptr`: the result, and the range of the `tlm_dmi`, whose pointer is to the first byte
of the target's own range. -/
structure TlmDmi where
  granted : Bool
  start : Addr
  last : Addr

namespace Iconnect

variable {n m : ℕ} (s : Iconnect n m)

/-- `unmap_offset`; `none` is `SC_REPORT_FATAL`. -/
def unmapOffset (targetNr : ℕ) (offset : Addr) : Option Addr :=
  if m ≤ targetNr then none
  else
    s.map[targetNr]?.bind fun e =>
      match e.addrmode with
      | .relative => if e.size ≤ offset then none else some (e.addr + offset)
      | .absolute => some offset

/-- `get_direct_mem_ptr`, on the answers of the targets. -/
def getDirectMemPtr (target : ℕ → GenericPayload → TlmDmi) (offset : Addr) (id : ℕ) (trans : GenericPayload) : Option TlmDmi :=
  if n ≤ id then none
  else
    let (targetNr, offset) := s.mapAddress (s.address id trans) offset
    let dmi := target targetNr { trans with address := offset }
    (s.unmapOffset targetNr dmi.start).bind fun start =>
      (s.unmapOffset targetNr dmi.last).map fun last => { dmi with start := start, last := last }

/-- `invalidate_direct_mem_ptr`: the range sent to every initiator. The offset is read at the number of the target,
which has to be that of an initiator. -/
def invalidateDirectMemPtr (id : ℕ) (start last : Addr) : Option (Addr × Addr) :=
  (s.unmapOffset id start).bind fun start =>
    (s.unmapOffset id last).bind fun last =>
      if id < n then some (start - s.targetOffset id, last - s.targetOffset id) else none

/-- A transaction of the initiator at `x` reaches address `l` of target `t`. -/
def Reaches (id : ℕ) (x : Addr) (t : ℕ) (l : Addr) : Prop :=
  ∀ target offset trans, trans.address = x → ∃ o, s.bTransport target offset id trans = some o ∧ o.calls = [(t, { trans with address := l })]

/-- Some request of initiator `id` is granted with a range that has `x`, where the pointer leads to address `l` of
target `t`. -/
def Granted (id t : ℕ) (x l : Addr) : Prop :=
  ∃ offset trans, ∃ answer dmi : TlmDmi, s.getDirectMemPtr (fun _ _ => answer) offset id trans = some dmi ∧
    (s.mapAddress (s.address id trans) offset).1 = t ∧ dmi.granted = true ∧ dmi.start ≤ x ∧ x ≤ dmi.last ∧
    l = answer.start + (x - dmi.start)

/-- The socket an address leads to; without a slot it is socket 0. -/
def Leads (a : Addr) (t : ℕ) : Prop :=
  (∃ j e, s.First a j e ∧ e.skIdx = t) ∨ (t = 0 ∧ ∀ e ∈ s.map, e.decodes a = false)

end Iconnect

/-- A request for direct memory with the answer of the target asked, or a target that takes its grants back. -/
inductive DmiEvent (n : ℕ) where
  | request (id : Fin n) (trans : GenericPayload) (answer : TlmDmi)
  | invalidate (t : ℕ) (start last : Addr)

namespace Iconnect

variable {n m : ℕ} (s : Iconnect n m)

/-- A request does not abort and what it is granted is where transactions go; an invalidation reaches whatever could
have been granted of it. -/
def Right : DmiEvent n → Prop
  | .request id gp answer => ∀ offset, ∃ dmi, s.getDirectMemPtr (fun _ _ => answer) offset id gp = some dmi ∧
      (dmi.granted = true → ∀ x, dmi.start ≤ x → x ≤ dmi.last →
        s.Reaches id x (s.mapAddress (s.address id gp) offset).1 (answer.start + (x - dmi.start)))
  | .invalidate t start last => ∃ range, s.invalidateDirectMemPtr t start last = some range ∧
      ∀ i < n, ∀ x l, s.Granted i t x l → start ≤ l → l ≤ last → range.1 ≤ x ∧ x ≤ range.2

/-- The slot with the number of the target's socket accepts both ends, and wherever its range lies, the first slots
that decode it lead to that socket with the same base, the offset of the initiator added. For an invalidation the
initiator with the number of the target has no offset, and the range does not wrap. -/
def Clear : DmiEvent n → Prop
  | .request id gp answer => ∃ t slot, s.Leads (s.address id gp) t ∧ t < m ∧ s.map[t]? = some slot ∧
      slot.Inside answer.start ∧ slot.Inside answer.last ∧
      (answer.granted = true → ∀ x, slot.base + answer.start ≤ x → x ≤ slot.base + answer.last →
        ∃ j e, s.First (x + s.targetOffset id) j e ∧ e.skIdx = t ∧ e.base = slot.base + s.targetOffset id)
  | .invalidate t start last => ∃ slot, t < m ∧ t < n ∧ s.map[t]? = some slot ∧ slot.Inside start ∧ slot.Inside last ∧
      (start ≤ last → (∃ a, s.Leads a t) → s.targetOffset t = 0 ∧ slot.base + start ≤ slot.base + last)

variable {s} {a x l : Addr} {id t : ℕ} {start last : Addr}

theorem leads_iff {offset : Addr} : (s.mapAddress a offset).1 = t ↔ s.Leads a t := by
  unfold mapAddress Leads
  cases hfind : s.map.find? fun e => e.decodes a with
  | none =>
    have hnone := List.find?_eq_none.1 hfind
    constructor
    · intro h
      exact .inr ⟨h.symm, fun e he => by simpa using hnone e he⟩
    · rintro (⟨j, e, hj, -⟩ | ⟨h, -⟩)
      · exact absurd hj.2.1 (hnone e (List.mem_of_getElem? hj.1))
      · exact h.symm
  | some e =>
    obtain ⟨j, hj⟩ := find?_eq_some_iff.1 hfind
    constructor
    · intro h
      exact .inl ⟨j, e, hj, h⟩
    · rintro (⟨j', e', hj', h⟩ | ⟨-, hnone⟩)
      · rw [find?_eq_some_iff.2 ⟨j', hj'⟩] at hfind
        exact Option.some.inj hfind ▸ h
      · exact absurd hj.2.1 (by simp [hnone e (List.mem_of_getElem? hj.1)])

theorem unmapOffset_eq_some_iff : s.unmapOffset t a = some x ↔ t < m ∧ ∃ slot, s.map[t]? = some slot ∧ slot.Inside a ∧ x = slot.base + a := by
  unfold unmapOffset
  split
  · rename_i hge
    constructor
    · rintro ⟨⟩
    · rintro ⟨hlt, -⟩
      omega
  · rename_i hlt
    simp only [Option.bind_eq_some_iff]
    refine ⟨fun ⟨e, he, h⟩ => ⟨by omega, e, he, ?_⟩, fun ⟨_, e, he, hin, hx⟩ => ⟨e, he, ?_⟩⟩
    · unfold MemmapEntry.Inside MemmapEntry.base
      cases hmode : e.addrmode with
      | relative =>
        simp only [hmode, Option.ite_none_left_eq_some, Option.some.injEq, BitVec.not_le] at h
        exact ⟨h.1, h.2.symm⟩
      | absolute =>
        simp only [hmode, Option.some.injEq] at h
        exact ⟨trivial, by simp [h]⟩
    · unfold MemmapEntry.Inside at hin
      unfold MemmapEntry.base at hx
      cases hmode : e.addrmode with
      | relative =>
        simp only [hmode] at hin hx ⊢
        rw [if_neg (BitVec.not_le.2 hin), hx]
      | absolute =>
        simp only [hmode] at hx ⊢
        simp [hx]

theorem reaches_iff (hid : id < n) :
    s.Reaches id x t l ↔ ∃ j e, s.First (x + s.targetOffset id) j e ∧ e.skIdx = t ∧ e.offset (x + s.targetOffset id) = l := by
  have hcall : s.Reaches id x t l ↔ ∀ offset, s.mapAddress (x + s.targetOffset id) offset = (t, l) := by
    constructor
    · intro h offset
      obtain ⟨o, ho, hcalls⟩ := h (fun _ gp => gp) offset { address := x } rfl
      obtain rfl := Option.some.inj ((forward_eq hid offset).symm.trans ho)
      simp only [List.cons.injEq, Prod.mk.injEq, GenericPayload.mk.injEq, true_and, and_true] at hcalls
      exact Prod.ext hcalls.1 hcalls.2
    · rintro h target offset gp rfl
      refine ⟨_, forward_eq hid offset, ?_⟩
      rw [address, h offset]
  rw [hcall]
  constructor
  · intro h
    cases hfind : s.map.find? fun e => e.decodes (x + s.targetOffset id) with
    | none =>
      have hoffset := h (l + 1)
      simp only [mapAddress, hfind, Prod.mk.injEq] at hoffset
      exact absurd hoffset.2 (by simp)
    | some e =>
      obtain ⟨j, hj⟩ := find?_eq_some_iff.1 hfind
      have heq := h 0
      rw [mapAddress_of_first hj] at heq
      exact ⟨j, e, hj, congrArg Prod.fst heq, congrArg Prod.snd heq⟩
  · rintro ⟨j, e, hj, rfl, rfl⟩ offset
    exact mapAddress_of_first hj offset

theorem getDirectMemPtr_eq_some_iff {offset : Addr} {gp : GenericPayload} {answer dmi : TlmDmi} (hid : id < n) :
    s.getDirectMemPtr (fun _ _ => answer) offset id gp = some dmi ↔
      ∃ start last, s.unmapOffset (s.mapAddress (s.address id gp) offset).1 answer.start = some start ∧
        s.unmapOffset (s.mapAddress (s.address id gp) offset).1 answer.last = some last ∧
        { answer with start := start, last := last } = dmi := by
  rw [getDirectMemPtr, if_neg (by omega)]
  simp only [Option.bind_eq_some_iff, Option.map_eq_some_iff]
  exact exists_congr fun start => ⟨fun ⟨h, last, h'⟩ => ⟨last, h, h'⟩, fun ⟨last, h, h'⟩ => ⟨h, last, h'⟩⟩

theorem right_request_iff {id : Fin n} {gp : GenericPayload} {answer : TlmDmi} :
    s.Right (.request id gp answer) ↔ s.Clear (.request id gp answer) := by
  constructor
  · intro h
    obtain ⟨dmi, hdmi, hreach⟩ := h 0
    obtain ⟨start, last, hstart, hlast, rfl⟩ := (getDirectMemPtr_eq_some_iff id.isLt).1 hdmi
    obtain ⟨ht, slot, hslot, hin, rfl⟩ := unmapOffset_eq_some_iff.1 hstart
    obtain ⟨-, slot', hslot', hin', rfl⟩ := unmapOffset_eq_some_iff.1 hlast
    obtain rfl := Option.some.inj (hslot.symm.trans hslot')
    refine ⟨_, slot, leads_iff.1 rfl, ht, hslot, hin, hin', fun hg x hlo hhi => ?_⟩
    obtain ⟨j, e, hj, hsk, hoff⟩ := (reaches_iff id.isLt).1 (hreach hg x hlo hhi)
    rw [MemmapEntry.offset_eq] at hoff
    exact ⟨j, e, hj, hsk, by grind⟩
  · rintro ⟨t, slot, hlead, ht, hslot, hin, hin', hgranted⟩ offset
    have htarget : (s.mapAddress (s.address id gp) offset).1 = t := leads_iff.2 hlead
    refine ⟨⟨answer.granted, slot.base + answer.start, slot.base + answer.last⟩,
      (getDirectMemPtr_eq_some_iff id.isLt).2 ⟨_, _, ?_, ?_, rfl⟩, fun hg x hlo hhi => ?_⟩
    · rw [htarget]
      exact unmapOffset_eq_some_iff.2 ⟨ht, slot, hslot, hin, rfl⟩
    · rw [htarget]
      exact unmapOffset_eq_some_iff.2 ⟨ht, slot, hslot, hin', rfl⟩
    · obtain ⟨j, e, hj, hsk, hbase⟩ := hgranted hg x hlo hhi
      rw [htarget]
      refine (reaches_iff id.isLt).2 ⟨j, e, hj, hsk, ?_⟩
      rw [MemmapEntry.offset_eq, hbase]
      grind

/-! ### Invalidation -/

theorem eq_zero_of_le {x y o : Addr} (hxy : x ≤ y) (hlo : x - o ≤ x) (hhi : y ≤ y - o) : o = 0 := by bv_omega

/-- Where the window wraps, both sides of the wrap are in it. -/
theorem wrap_mem {b : Addr} (hle : start ≤ last) (hwrap : b + last < b + start) : start ≤ -b - 1 ∧ -b - 1 ≤ last ∧ -b ≤ last ∧ start ≤ -b := by
  rw [BitVec.lt_def, BitVec.toNat_add, BitVec.toNat_add] at hwrap
  rw [BitVec.le_def] at hle
  have hsum : b.toNat + start.toNat < 2 ^ 64 ∧ 2 ^ 64 ≤ b.toNat + last.toNat := by omega
  have hneg : (-b).toNat = 2 ^ 64 - b.toNat := by
    rw [BitVec.toNat_neg, Nat.mod_eq_of_lt (by omega)]
  simp only [BitVec.le_def, BitVec.toNat_sub, hneg]
  have h1 : (1 : Addr).toNat = 1 := rfl
  rw [h1]
  omega

theorem eq_zero_of_le_sub_one (h : start ≤ start - 1) : start = 0 := by bv_omega

theorem between {b l : Addr} (hl : start ≤ l) (hl' : l ≤ last) (hwrap : b + start ≤ b + last) : b + start ≤ b + l ∧ b + l ≤ b + last := by
  simp only [BitVec.le_def, BitVec.toNat_add] at *
  have := b.isLt
  have := last.isLt
  omega

/-- A window moved down by an offset has all of the window only if the offset is zero and the window does not wrap. -/
theorem window_iff {b o : Addr} (hle : start ≤ last) (hb : b = 0 ∨ last ≠ BitVec.allOnes 64) :
    (∀ l, start ≤ l → l ≤ last → b + start - o ≤ b + l ∧ b + l ≤ b + last - o) ↔ o = 0 ∧ b + start ≤ b + last := by
  constructor
  · intro h
    have hlo := (h start (BitVec.le_refl _) hle).1
    have hhi := (h last hle (BitVec.le_refl _)).2
    by_cases hwrap : b + start ≤ b + last
    · exact ⟨eq_zero_of_le hwrap hlo hhi, hwrap⟩
    -- the addresses on both sides of the wrap are in the window
    · obtain ⟨hfirst, hmid, hlast, hstart⟩ := wrap_mem hle (BitVec.not_le.1 hwrap)
      have h0 := (h (-b) hstart hlast).1
      have h1 := (h (-b - 1) hfirst hmid).2
      rw [BitVec.add_right_neg, BitVec.le_zero_iff] at h0
      have hend : last = start - 1 := by
        rw [show b + (-b - 1) = BitVec.allOnes 64 by grind, BitVec.allOnes_le_iff] at h1
        grind
      obtain rfl : start = 0 := eq_zero_of_le_sub_one (hend ▸ hle)
      rcases hb with rfl | hb
      · exact absurd (by grind) hwrap
      · exact absurd hend hb
  · rintro ⟨rfl, hwrap⟩ l hl hl'
    have hzero (y : Addr) : y - 0 = y := BitVec.sub_zero y
    rw [hzero, hzero]
    exact between hl hl' hwrap

/-- What the invalidation of a target could have been granted lies at the base of its slot. -/
theorem granted_iff {slot : MemmapEntry} (ht : t < m) (hslot : s.map[t]? = some slot) (hin : slot.Inside l) (hid : id < n) :
    s.Granted id t x l ↔ (∃ a, s.Leads a t) ∧ x = slot.base + l := by
  constructor
  · rintro ⟨offset, gp, answer, dmi, hdmi, rfl, -, -, -, rfl⟩
    obtain ⟨start, last, hstart, -, rfl⟩ := (getDirectMemPtr_eq_some_iff hid).1 hdmi
    obtain ⟨-, slot', hslot', -, rfl⟩ := unmapOffset_eq_some_iff.1 hstart
    obtain rfl := Option.some.inj (hslot.symm.trans hslot')
    exact ⟨⟨_, leads_iff.1 rfl⟩, by grind⟩
  · rintro ⟨⟨a, ha⟩, rfl⟩
    have haddr : s.address id { address := a - s.targetOffset id } = a := by
      rw [address]
      grind
    have htarget : (s.mapAddress (s.address id { address := a - s.targetOffset id }) 0).1 = t := by
      rw [haddr]
      exact leads_iff.2 ha
    have hunmap : s.unmapOffset (s.mapAddress (s.address id { address := a - s.targetOffset id }) 0).1 l = some (slot.base + l) := by
      rw [htarget]
      exact unmapOffset_eq_some_iff.2 ⟨ht, slot, hslot, hin, rfl⟩
    exact ⟨0, { address := a - s.targetOffset id }, ⟨true, l, l⟩, ⟨true, slot.base + l, slot.base + l⟩,
      (getDirectMemPtr_eq_some_iff hid).2 ⟨_, _, hunmap, hunmap, rfl⟩, htarget, rfl, BitVec.le_refl _, BitVec.le_refl _, by grind⟩

theorem right_invalidate_iff : s.Right (.invalidate t start last) ↔ s.Clear (.invalidate t start last) := by
  constructor
  · rintro ⟨range, hrange, h⟩
    simp only [invalidateDirectMemPtr, Option.bind_eq_some_iff, Option.ite_none_right_eq_some, Option.some.injEq] at hrange
    obtain ⟨_, hstart, _, hlast, htn, rfl⟩ := hrange
    obtain ⟨ht, slot, hslot, hin, rfl⟩ := unmapOffset_eq_some_iff.1 hstart
    obtain ⟨-, slot', hslot', hin', rfl⟩ := unmapOffset_eq_some_iff.1 hlast
    obtain rfl := Option.some.inj (hslot.symm.trans hslot')
    refine ⟨slot, ht, htn, hslot, hin, hin', fun hle hlead => (window_iff hle hin'.base_or).1 fun l hl hl' => ?_⟩
    exact h t htn _ l ((granted_iff ht hslot (hin'.of_le hl') htn).2 ⟨hlead, rfl⟩) hl hl'
  · rintro ⟨slot, ht, htn, hslot, hin, hin', h⟩
    refine ⟨(slot.base + start - s.targetOffset t, slot.base + last - s.targetOffset t), ?_, fun i hi x l hgranted hl hl' => ?_⟩
    · rw [invalidateDirectMemPtr, unmapOffset_eq_some_iff.2 ⟨ht, slot, hslot, hin, rfl⟩, Option.bind_some,
        unmapOffset_eq_some_iff.2 ⟨ht, slot, hslot, hin', rfl⟩, Option.bind_some, if_pos htn]
    · obtain ⟨hlead, rfl⟩ := (granted_iff ht hslot (hin'.of_le hl') hi).1 hgranted
      have hle : start ≤ last := BitVec.le_trans hl hl'
      exact (window_iff hle hin'.base_or).2 (h hle hlead) l hl hl'

/-- **Direct memory, exactly**: an event is right if and only if the slots make it clear. -/
theorem dmiEvent_right_iff (s : Iconnect n m) (ev : DmiEvent n) : s.Right ev ↔ s.Clear ev := by
  cases ev with
  | request id gp answer => exact right_request_iff
  | invalidate t start last => exact right_invalidate_iff

/-- A target that refuses gives the whole address space as its range, and no region accepts the end of that. -/
theorem not_dmiEvent_right : ¬∀ (n m : ℕ) (s : Mapped n m) (ev : DmiEvent n), s.Right ev := by
  intro h
  obtain ⟨dmi, hdmi, -⟩ := h 1 2 Mapped.touching (.request 0 {} ⟨false, 0, BitVec.allOnes 64⟩) 0
  have hnone : Mapped.touching.getDirectMemPtr (fun _ _ => ⟨false, 0, BitVec.allOnes 64⟩) 0 0 {} = none := rfl
  exact absurd (hnone.symm.trans hdmi) (Option.some_ne_none dmi).symm

end Iconnect

end LibSystemCTLM.Soc
