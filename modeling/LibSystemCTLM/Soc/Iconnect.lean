import LibSystemCTLM.Foundation.Runs
import LibSystemCTLM.Tlm.Payload
import Mathlib.Data.List.Pairwise
import Mathlib.Algebra.Order.Ring.Nat

/-!
# Address decoding of the interconnect

`iconnect` keeps a table of four slots for each target socket. `memmap` fills the first slot of size zero, and
`map_address` takes the first slot that decodes an address. Two things set this decoder apart from the regions that
were mapped (`MemmapEntry.Has`): the address right above a region counts as its own (`decodes_iff`), and a region that
ends at the top of the address space decodes nothing, since its end wraps to zero. A slot that the constructor did
not clear decodes as well. `iconnect_routed_iff` says which transactions arrive where they belong all the same, and
`clear_of_inside` that the inside of a region is among them in a table that was all zero.
-/

namespace LibSystemCTLM.Soc

open Foundation Tlm

/-- `enum addrmode`. -/
inductive AddrMode where
  | relative | absolute

/-- `struct memmap_entry`. -/
structure MemmapEntry where
  addr : Addr
  size : Addr
  addrmode : AddrMode
  skIdx : ℕ

namespace MemmapEntry

variable (e e' : MemmapEntry) (a : Addr)

/-- The test of `map_address`. -/
def decodes : Bool := decide (e.size ≠ 0 ∧ e.addr ≤ a ∧ a ≤ e.addr + e.size)

/-- The address passed on to the target. -/
def offset : Addr :=
  match e.addrmode with
  | .relative => a - e.addr
  | .absolute => a

/-- The first address above. -/
def last : ℕ := e.addr.toNat + e.size.toNat

/-- The addresses of the region. -/
def Has : Prop := e.addr.toNat ≤ a.toNat ∧ a.toNat < e.last

instance : Decidable (e.Has a) := inferInstanceAs (Decidable (_ ∧ _))

/-- A region of the address space, maybe up to its top. -/
def Region : Prop := 0 < e.size.toNat ∧ e.last ≤ 2 ^ 64

/-- No address in common. -/
def Apart : Prop := e.last ≤ e'.addr.toNat ∨ e'.last ≤ e.addr.toNat

instance : Decidable e.Region := inferInstanceAs (Decidable (_ ∧ _))

instance : Decidable (e.Apart e') := inferInstanceAs (Decidable (_ ∨ _))

variable {e e' a}

theorem Apart.symm (h : e.Apart e') : e'.Apart e := Or.symm h

instance : Std.Symm MemmapEntry.Apart := ⟨fun _ _ => Apart.symm⟩

theorem Apart.not_has (h : e.Apart e') (ha : e.Has a) : ¬e'.Has a := by
  rintro ⟨hlo, hhi⟩
  obtain ⟨hlo', hhi'⟩ := ha
  rcases h with h | h <;> omega

/-- **What a region decodes**: its addresses and the one above them, unless it ends at the top. -/
theorem decodes_iff (h : e.Region) : e.decodes a = true ↔ e.last < 2 ^ 64 ∧ (e.Has a ∨ a.toNat = e.last) := by
  obtain ⟨hpos, hle⟩ := h
  have ha := a.isLt
  have hsize : e.size ≠ 0 := by
    rintro h0
    rw [h0] at hpos
    exact absurd hpos (by decide)
  simp only [decodes, decide_eq_true_iff, Has, BitVec.le_def, BitVec.toNat_add, last] at *
  rcases Nat.lt_or_ge (e.addr.toNat + e.size.toNat) (2 ^ 64) with hlt | hge
  · rw [Nat.mod_eq_of_lt hlt]
    constructor
    · rintro ⟨-, hlo, hhi⟩
      exact ⟨hlt, by omega⟩
    · rintro ⟨-, hin⟩
      exact ⟨hsize, by omega⟩
  · rw [show e.addr.toNat + e.size.toNat = 2 ^ 64 by omega, Nat.mod_self]
    constructor
    · rintro ⟨-, hlo, hhi⟩
      exact absurd e.size.isLt (by omega)
    · rintro ⟨hlt, -⟩
      exact absurd hlt (Nat.lt_irrefl _)

/-- Of the regions apart from the one of an address, only one that ends right there decodes it. -/
theorem decodes_of_apart (h : e.Region) (hd : e.Apart e') (ha : e'.Has a) (hdec : e.decodes a = true) :
    e.last = e'.addr.toNat ∧ a = e'.addr := by
  obtain ⟨-, hin | hend⟩ := (decodes_iff h).1 hdec
  · exact absurd ha (hd.not_has hin)
  · have hpos := h.1
    have hlo := ha.1
    have hhi := ha.2
    have heq : e.last = e'.addr.toNat := by
      rcases hd with hd | hd <;> simp only [last] at * <;> omega
    exact ⟨heq, BitVec.eq_of_toNat_eq (hend.trans heq)⟩

end MemmapEntry

/-- An interconnect of `n` initiators and `m` targets. -/
structure Iconnect (n m : ℕ) where
  map : List MemmapEntry
  targetOffset : ℕ → Addr

/-- A call that sets the interconnect up. An index of -1 is `none`. -/
inductive Setup where
  | setTargetOffset (id : ℕ) (offset : Addr)
  | memmap (addr size : Addr) (addrmode : AddrMode) (idx : Option ℕ)

/-- What a transaction comes to: the calls made on initiator sockets, and the payload afterwards. -/
structure Outcome where
  calls : List (ℕ × GenericPayload)
  payload : GenericPayload

namespace Iconnect

variable {n m : ℕ}

/-- The constructor, which clears the sizes of the first `m` slots of the memory it is given. -/
def new (raw : Fin (m * 4) → MemmapEntry) : Iconnect n m where
  map := List.ofFn fun i => if i.val < m then { raw i with size := 0 } else raw i
  targetOffset := fun _ => 0

variable (s : Iconnect n m)

/-- `set_target_offset`. -/
def setTargetOffset (id : ℕ) (offset : Addr) : Option (Iconnect n m) :=
  if id < n then some { s with targetOffset := Function.update s.targetOffset id offset } else none

/-- `memmap`, with the entry it makes; it aborts on a full table. A target without an index is bound to the socket
with the number of the slot, which has to exist. -/
def memmap (addr size : Addr) (addrmode : AddrMode) (idx : Option ℕ) : Option (Iconnect n m × MemmapEntry) :=
  match s.map.findIdx? fun e => decide (e.size = 0) with
  | none => none
  | some i =>
    if idx = none ∧ m ≤ i then none
    else
      let e : MemmapEntry := ⟨addr, size, addrmode, idx.getD i⟩
      some ({ s with map := s.map.set i e }, e)

/-- `map_address`. On a decode error it returns socket 0 and leaves the offset as it is. -/
def mapAddress (a : Addr) (offset : Addr) : ℕ × Addr :=
  match s.map.find? fun e => e.decodes a with
  | some e => (e.skIdx, e.offset a)
  | none => (0, offset)

/-- The address in the interconnect. -/
def address (id : ℕ) (trans : GenericPayload) : Addr := trans.address + s.targetOffset id

/-- The common body of `b_transport` and `transport_dbg`, on the call `target` of the socket and what the local
variable `offset` held. -/
def forward (target : ℕ → GenericPayload → GenericPayload) (offset : Addr) (id : ℕ) (trans : GenericPayload) : Option Outcome :=
  if n ≤ id then none
  else
    let addr := s.address id trans
    let (targetNr, offset) := s.mapAddress addr offset
    let trans := { trans with address := offset }
    some ⟨[(targetNr, trans)], { target targetNr trans with address := addr }⟩

/-- `b_transport`. -/
def bTransport (target : ℕ → GenericPayload → GenericPayload) (offset : Addr) (id : ℕ) (trans : GenericPayload) : Option Outcome :=
  s.forward target offset id trans

/-- `transport_dbg`, which returns zero bytes. -/
def transportDbg (target : ℕ → GenericPayload → GenericPayload) (offset : Addr) (id : ℕ) (trans : GenericPayload) :
    Option (Outcome × ℕ) :=
  (s.forward target offset id trans).map fun o => (o, 0)

/-- Slot `j` is the first one that decodes the address. -/
def First (a : Addr) (j : ℕ) (e : MemmapEntry) : Prop :=
  s.map[j]? = some e ∧ e.decodes a = true ∧ ∀ i < j, ∀ e' ∈ s.map[i]?, e'.decodes a = false

variable {s} {a : Addr} {e : MemmapEntry} {target : ℕ → GenericPayload → GenericPayload} {id : ℕ} {trans : GenericPayload}

theorem find?_eq_some_iff : (s.map.find? fun e => e.decodes a) = some e ↔ ∃ j, s.First a j e := by
  rw [List.find?_eq_some_iff_getElem]
  constructor
  · rintro ⟨hdec, j, hj, rfl, hbefore⟩
    refine ⟨j, List.getElem?_eq_getElem hj, hdec, fun i hi e' he' => ?_⟩
    rw [List.getElem?_eq_getElem (by omega)] at he'
    obtain rfl := Option.mem_some.1 he'
    simpa using hbefore i hi
  · rintro ⟨j, hj, hdec, hbefore⟩
    obtain ⟨hlt, rfl⟩ := List.getElem?_eq_some_iff.1 hj
    refine ⟨hdec, j, hlt, rfl, fun i hi => ?_⟩
    simpa using hbefore i hi _ (List.getElem?_eq_getElem (by omega))

theorem mapAddress_of_first {j : ℕ} (h : s.First a j e) (offset : Addr) : s.mapAddress a offset = (e.skIdx, e.offset a) := by
  rw [mapAddress, find?_eq_some_iff.2 ⟨j, h⟩]

theorem forward_eq (hid : id < n) (offset : Addr) :
    s.forward target offset id trans = some
      ⟨[((s.mapAddress (s.address id trans) offset).1, { trans with address := (s.mapAddress (s.address id trans) offset).2 })],
        { target (s.mapAddress (s.address id trans) offset).1
            { trans with address := (s.mapAddress (s.address id trans) offset).2 } with address := s.address id trans }⟩ := by
  rw [forward, if_neg (by omega)]

/-- A call of the set-up, on the interconnect and the regions mapped on it. -/
def setup : Iconnect n m × List MemmapEntry → Setup → Option (Iconnect n m × List MemmapEntry)
  | (s, regions), .setTargetOffset id offset => (s.setTargetOffset id offset).map fun s => (s, regions)
  | (s, regions), .memmap addr size addrmode idx =>
    (s.memmap addr size addrmode idx).map fun (s, e) => (s, regions ++ [e])

end Iconnect

/-- An interconnect that was set up with regions apart from each other. -/
structure Mapped (n m : ℕ) extends Iconnect n m where
  regions : List MemmapEntry
  reach : ∃ raw calls, run Iconnect.setup (Iconnect.new raw, []) calls = some (toIconnect, regions)
  region : ∀ r ∈ regions, r.Region
  apart : regions.Pairwise MemmapEntry.Apart

namespace Mapped

variable {n m : ℕ} (s : Mapped n m) (id : ℕ) (trans : GenericPayload)

/-- The transaction goes to the region that has its address, with the address in there, or is refused if there is none;
the payload's address is what it was. -/
def Routed (o : Outcome) : Prop :=
  (∀ r ∈ s.regions, r.Has (s.address id trans) → o.calls = [(r.skIdx, { trans with address := r.offset (s.address id trans) })]) ∧
  ((∀ r ∈ s.regions, ¬r.Has (s.address id trans)) → o.calls = [] ∧ o.payload.response = .error) ∧
  o.payload.address = trans.address

/-- The initiator has no offset, and the first slot that decodes the address leads where the region that has the
address lies. -/
def Clear : Prop :=
  s.targetOffset id = 0 ∧ ∃ r ∈ s.regions, r.Has (s.address id trans) ∧
    ∃ j e, s.First (s.address id trans) j e ∧ e.skIdx = r.skIdx ∧ e.offset (s.address id trans) = r.offset (s.address id trans)

variable {s id trans} {a : Addr} {r r' e : MemmapEntry} {target : ℕ → GenericPayload → GenericPayload}

theorem eq_of_has (hr : r ∈ s.regions) (hr' : r' ∈ s.regions) (h : r.Has a) (h' : r'.Has a) : r = r' := by
  by_contra hne
  exact (s.apart.forall hr hr' hne).not_has h h'

/-- Some call is made, so an address outside of all regions is never refused. -/
theorem forward_iff (hid : id < n) :
    (∀ offset, ∃ o, s.forward target offset id trans = some o ∧ s.Routed id trans o) ↔ s.Clear id trans := by
  constructor
  · intro h
    have hrouted : ∀ offset r, r ∈ s.regions → r.Has (s.address id trans) →
        s.mapAddress (s.address id trans) offset = (r.skIdx, r.offset (s.address id trans)) := by
      intro offset r hr ha
      obtain ⟨o, ho, hin, -, -⟩ := h offset
      obtain rfl := Option.some.inj ((Iconnect.forward_eq hid offset).symm.trans ho)
      have hcall := hin r hr ha
      simp only [List.cons.injEq, Prod.mk.injEq, GenericPayload.mk.injEq, true_and, and_true] at hcall
      exact Prod.ext hcall.1 hcall.2
    obtain ⟨o, ho, -, hout, haddr⟩ := h 0
    obtain rfl := Option.some.inj ((Iconnect.forward_eq hid 0).symm.trans ho)
    obtain ⟨r, hr, ha⟩ : ∃ r ∈ s.regions, r.Has (s.address id trans) := by
      by_contra hnone
      exact absurd (hout fun r hr ha => hnone ⟨r, hr, ha⟩).1 (List.cons_ne_nil _ _)
    refine ⟨by simpa [Iconnect.address] using haddr, r, hr, ha, ?_⟩
    cases hfind : s.map.find? fun e => e.decodes (s.address id trans) with
    | none =>
      -- what the variable held cannot be the right offset every time
      have hoffset := hrouted (r.offset (s.address id trans) + 1) r hr ha
      simp only [Iconnect.mapAddress, hfind, Prod.mk.injEq] at hoffset
      exact absurd hoffset.2 (by simp)
    | some e =>
      obtain ⟨j, hj⟩ := Iconnect.find?_eq_some_iff.1 hfind
      have heq := hrouted 0 r hr ha
      rw [Iconnect.mapAddress_of_first hj] at heq
      exact ⟨j, e, hj, congrArg Prod.fst heq, congrArg Prod.snd heq⟩
  · rintro ⟨hoff, r, hr, ha, j, e, hj, hsk, hlocal⟩ offset
    refine ⟨_, Iconnect.forward_eq hid offset, fun r' hr' ha' => ?_, fun hnone => absurd ha (hnone r hr), ?_⟩
    · rw [eq_of_has hr' hr ha' ha, Iconnect.mapAddress_of_first hj, hsk, hlocal]
    · simp [Iconnect.address, hoff]

/-- **Decoding, exactly**: `b_transport` and `transport_dbg` send a transaction where it belongs if and only if the
initiator has no offset and the first slot that decodes the address leads to its region. -/
theorem iconnect_routed_iff (s : Mapped n m) (id : Fin n) (trans : GenericPayload) (target targetDbg : ℕ → GenericPayload → GenericPayload) :
    (∀ offset, (∃ o, s.bTransport target offset id trans = some o ∧ s.Routed id trans o) ∧
      ∃ o k, s.transportDbg targetDbg offset id trans = some (o, k) ∧ s.Routed id trans o) ↔ s.Clear id trans := by
  have hdbg : ∀ offset, (∃ o k, s.transportDbg targetDbg offset id trans = some (o, k) ∧ s.Routed id trans o) ↔
      ∃ o, s.forward targetDbg offset id trans = some o ∧ s.Routed id trans o := by
    intro offset
    simp only [Iconnect.transportDbg, Option.map_eq_some_iff, Prod.mk.injEq]
    constructor
    · rintro ⟨_, k, ⟨o, ho, rfl, rfl⟩, hr⟩
      exact ⟨o, ho, hr⟩
    · rintro ⟨o, ho, hr⟩
      exact ⟨o, 0, ⟨o, ho, rfl, rfl⟩, hr⟩
  constructor
  · intro h
    exact (forward_iff id.isLt).1 fun offset => (h offset).1
  · intro h offset
    exact ⟨(forward_iff id.isLt).2 h offset, (hdbg offset).2 ((forward_iff id.isLt).2 h offset)⟩

/-- Two regions that touch each other. -/
def touching : Mapped 1 2 where
  map := [⟨0, 0x1000, .relative, 0⟩, ⟨0x1000, 0x1000, .relative, 1⟩] ++ List.replicate 6 ⟨0, 0, .relative, 0⟩
  targetOffset := fun _ => 0
  regions := [⟨0, 0x1000, .relative, 0⟩, ⟨0x1000, 0x1000, .relative, 1⟩]
  reach := ⟨fun _ => ⟨0, 0, .relative, 0⟩, [.memmap 0 0x1000 .relative none, .memmap 0x1000 0x1000 .relative none], rfl⟩
  region := by decide
  apart := by decide

/-- The first byte of the upper one goes to the lower one. -/
theorem not_iconnect_routed : ¬∀ (n m : ℕ) (s : Mapped n m) (id : Fin n) (trans : GenericPayload)
    (target targetDbg : ℕ → GenericPayload → GenericPayload) (offset : Addr),
    (∃ o, s.bTransport target offset id trans = some o ∧ s.Routed id trans o) ∧
      ∃ o k, s.transportDbg targetDbg offset id trans = some (o, k) ∧ s.Routed id trans o := by
  intro h
  obtain ⟨⟨o, ho, hin, -⟩, -⟩ := h 1 2 touching 0 { address := 0x1000 } (fun _ gp => gp) (fun _ gp => gp) 0
  have hcalls : o.calls.map Prod.fst = [0] := by
    cases ho
    rfl
  rw [hin ⟨0x1000, 0x1000, .relative, 1⟩ (by simp [touching]) (by decide)] at hcalls
  exact absurd hcalls (by decide)

/-! ### A table that was all zero -/

/-- The regions in the order they were mapped, then free slots. -/
def Packed (s : Iconnect n m) (regions : List MemmapEntry) : Prop :=
  (∀ r ∈ regions, r.size ≠ 0) → ∃ free, s.map = regions ++ free ∧ ∀ e ∈ free, e.size = 0

theorem memmap_packed {b b' : Iconnect n m} {regions : List MemmapEntry} {addr size : Addr} {addrmode : AddrMode} {idx : Option ℕ}
    (h : Packed b regions) (hsize : ∀ r ∈ regions, r.size ≠ 0) (hb : b.memmap addr size addrmode idx = some (b', e)) :
    ∃ free, b'.map = regions ++ [e] ++ free ∧ ∀ e ∈ free, e.size = 0 := by
  obtain ⟨free, hmap, hfree⟩ := h hsize
  have hnone : regions.findIdx? (fun e => decide (e.size = 0)) = none := by
    simpa [List.findIdx?_eq_none_iff] using hsize
  rw [Iconnect.memmap, hmap, List.findIdx?_append, hnone, Option.none_or] at hb
  cases free with
  | nil => cases hb
  | cons f free =>
    rw [List.findIdx?_cons, if_pos (decide_eq_true (hfree f List.mem_cons_self))] at hb
    simp only [Option.map_some, Nat.zero_add] at hb
    split at hb
    · cases hb
    · cases hb
      refine ⟨free, ?_, fun e he => hfree e (List.mem_cons_of_mem _ he)⟩
      simp

theorem packed_setup {c c' : Iconnect n m × List MemmapEntry} {call : Setup} (h : Packed c.1 c.2) (hs : Iconnect.setup c call = some c') :
    Packed c'.1 c'.2 := by
  cases call with
  | setTargetOffset id offset =>
    obtain ⟨b', hb', rfl⟩ := Option.map_eq_some_iff.1 hs
    simp only [Iconnect.setTargetOffset, Option.ite_none_right_eq_some, Option.some.injEq] at hb'
    exact hb'.2 ▸ h
  | memmap addr size addrmode idx =>
    obtain ⟨⟨b', e⟩, hb', rfl⟩ := Option.map_eq_some_iff.1 hs
    intro hsize
    exact memmap_packed h (fun r hr => hsize r (List.mem_append_left _ hr)) hb'

/-- **Inside of a region**: in a table that was all zero, an address of a region that ends below the top is clear, unless
it is the first one and a region mapped earlier ends there. -/
theorem clear_of_inside {raw : Fin (m * 4) → MemmapEntry} {calls : List Setup} (hraw : ∀ i, (raw i).size = 0)
    (hrun : run Iconnect.setup (Iconnect.new raw, []) calls = some (s.toIconnect, s.regions)) (hoff : s.targetOffset id = 0) {k : ℕ}
    (hk : s.regions[k]? = some r) (ha : r.Has (s.address id trans)) (htop : r.last < 2 ^ 64)
    (hbelow : ∀ j < k, ∀ r' ∈ s.regions[j]?, r'.last = r.addr.toNat → s.address id trans ≠ r.addr) : s.Clear id trans := by
  have hnew : Packed (Iconnect.new raw : Iconnect n m) [] := by
    refine fun _ => ⟨_, rfl, fun e he => ?_⟩
    obtain ⟨i, rfl⟩ := List.mem_ofFn.1 he
    split
    · rfl
    · exact hraw i
  obtain ⟨free, hmap, -⟩ := Reach.invariant (I := fun c => Packed c.1 c.2) hnew (fun h _ hs => packed_setup h hs) (reach_of_run hrun)
    fun r hr h0 => absurd (s.region r hr).1 (by rw [h0]; decide)
  replace hmap : s.map = s.regions ++ free := hmap
  have hr := List.mem_of_getElem? hk
  have hin : ∀ (j : ℕ) (r' : MemmapEntry), s.regions[j]? = some r' → s.map[j]? = some r' := by
    intro j r' hj
    rw [hmap, List.getElem?_append_left (List.getElem?_eq_some_iff.1 hj).1, hj]
  have hfirst : s.First (s.address id trans) k r := by
    refine ⟨hin k r hk, (MemmapEntry.decodes_iff (s.region r hr)).2 ⟨htop, .inl ha⟩, fun j hj e he => ?_⟩
    have hlt := (List.getElem?_eq_some_iff.1 hk).1
    have hj' : s.regions[j]? = some e := by
      rwa [hmap, List.getElem?_append_left (by omega)] at he
    rw [Bool.eq_false_iff]
    intro hdec
    have hapart : e.Apart r := by
      have hpair := List.pairwise_iff_getElem.1 s.apart j k (by omega) hlt hj
      rwa [(List.getElem?_eq_some_iff.1 hj').2, (List.getElem?_eq_some_iff.1 hk).2] at hpair
    obtain ⟨hend, haddr⟩ := MemmapEntry.decodes_of_apart (s.region e (List.mem_of_getElem? hj')) hapart ha hdec
    exact hbelow j hj e hj' hend haddr
  exact ⟨hoff, r, hr, ha, k, r, hfirst, rfl, rfl⟩

end Mapped

end LibSystemCTLM.Soc
