import LibSystemCTLM.Foundation.ByteMemory
import LibSystemCTLM.Tlm.Aligner

/-!
# `tlm_wrap_expander`

`b_transport` of the proxy that expands wrapping transactions (`tlm-wrap-expander.h`), over any target, and
the memory it is tested with (`memory.cc`). Byte `k` of a wrapping transaction belongs `k` bytes behind the
start, from the wrap boundary on again at the end of the wrap (`wrapAddr`).

With two payloads the data get there from every start address (`wraps_two`). With one payload the access is
moved to the wrap boundary, and with it the first byte and the address the caller has; both modes serve a
transaction exactly when it starts at its wrap boundary (`expands_iff`).

## Honest scope

The memory has all addresses of 64 bits. A streaming width of zero is the length of the data.
-/

namespace LibSystemCTLM.Tlm

open Foundation

/-- A target: what it leaves of a payload and of its state. -/
abbrev Target (σ : Type*) := GenericPayload → σ → GenericPayload × σ

/-- `memory::b_transport`. Its slow path, for byte enables or streaming, only asks for reads. -/
def memory : Target (Addr → Byte) := fun trans mem =>
  if trans.isRead = true then
    ({ trans with
        data := fun pos => if pos < trans.dataLength ∧ trans.enabled pos = true then mem (trans.byteAddr pos) else trans.data pos
        response := .ok }, mem)
  else if trans.isWrite = true ∨ trans.byteEnable ≠ [] ∨ Aligner.streamingWidth trans ≠ trans.dataLength then
    ({ trans with response := .ok }, store trans.writes mem)
  else ({ trans with response := .ok }, mem)

namespace WrapExpander

variable (gp : GenericPayload)

/-- `wrap_boundary`. -/
def wrapBoundary : ℕ := alignDown gp.address.toNat gp.dataLength

/-- `pos`: the start byte position in the wrap. -/
def pos : ℕ := gp.address.toNat - wrapBoundary gp

/-- `tmp_gp` as the first payload, from the start to the end of the wrap. -/
def firstGp : GenericPayload := { gp with dataLength := gp.dataLength - pos gp, response := .incomplete }

/-- `tmp_gp` as the second payload, from the wrap boundary to the start. -/
def secondGp (tmpGp : GenericPayload) : GenericPayload :=
  { tmpGp with
    address := BitVec.ofNat 64 (wrapBoundary gp)
    data := fun k => tmpGp.data (gp.dataLength - pos gp + k)
    dataLength := pos gp
    byteEnable := if gp.byteEnable = [] then tmpGp.byteEnable else Aligner.window gp (gp.dataLength - pos gp)
    response := .incomplete }

variable {σ : Type*}

/-- `b_transport`; `wrap` is that of the payload's attributes, if it has any. It divides by the length, and copies the
byte enables twice into a buffer of `be_len * 2` bytes. -/
def bTransport (generateTwoGps : Bool) (target : Target σ) (wrap : Option Bool) (s : σ) : Option (GenericPayload × σ) :=
  if wrap.getD false = false then some (target gp s)
  else if gp.dataLength = 0 ∨ 2 ^ 32 ≤ gp.byteEnable.length * 2 then none
  else if generateTwoGps = true ∧ pos gp ≠ 0 then
    let t := target (firstGp gp) s
    if t.1.response = .ok then
      let t' := target (secondGp gp t.1) t.2
      some ({ gp with
        data := fun k => if k < gp.dataLength - pos gp then t.1.data k else t'.1.data (k - (gp.dataLength - pos gp))
        response := t'.1.response }, t'.2)
    else some ({ gp with data := t.1.data, response := t.1.response }, t.2)
  else some (target { gp with address := BitVec.ofNat 64 (wrapBoundary gp) } s)

/-! ### What is asked of it -/

/-- The address of byte `k` of a wrapping transaction. -/
def wrapAddr (k : ℕ) : Addr := BitVec.ofNat 64 (wrapBoundary gp + (pos gp + k) % gp.dataLength)

/-- The bytes a wrapping write writes. -/
def wrapWrites : List (Addr × Byte) :=
  (List.range gp.dataLength).filterMap fun k => if gp.enabled k = true then some (wrapAddr gp k, gp.data k) else none

/-- A wrapping transaction served by a memory: the enabled bytes are written to and read from their addresses, and
the caller has the payload back as it was. -/
structure Served (mem : Addr → Byte) (r : GenericPayload × (Addr → Byte)) : Prop where
  write : gp.isWrite = true → r.2 = store (wrapWrites gp) mem
  read : gp.isRead = true → r.2 = mem ∧ ∀ k < gp.dataLength, gp.enabled k = true → r.1.data k = mem (wrapAddr gp k)
  kept : ∀ k, ¬(gp.isRead = true ∧ k < gp.dataLength ∧ gp.enabled k = true) → r.1.data k = gp.data k
  restored : r.1 = { gp with data := r.1.data, response := .ok }

/-- The expander serves the wrapping transaction, whatever the memory holds. -/
def Wraps (generateTwoGps : Bool) : Prop := ∀ mem, ∃ r, bTransport gp generateTwoGps memory (some true) mem = some r ∧ Served gp mem r

/-- The enabled bytes that are read or written are not streamed. -/
def Linear : Prop := gp.command ≠ .ignore → ∀ k < gp.dataLength, gp.enabled k = true → k % gp.streamingWidth = k

end WrapExpander

/-! ### The memory -/

section Memory

variable (trans : GenericPayload) (mem : Addr → Byte)

/-- A memory answers OK, and a read replaces the enabled bytes. -/
theorem memory_fst : (memory trans mem).1 =
    { trans with
      data := fun k => if trans.isRead = true ∧ k < trans.dataLength ∧ trans.enabled k = true then mem (trans.byteAddr k) else trans.data k
      response := .ok } := by
  unfold memory
  split
  · rename_i hread
    simp only [hread, true_and]
  · rename_i hread
    simp only [hread]
    split <;> rfl

variable {trans} {m : Addr → Byte}

theorem memory_of_read (h : trans.isRead = true) : (memory trans m).2 = m := by rw [memory, if_pos h]

theorem memory_of_write (h : trans.isWrite = true) : (memory trans m).2 = store trans.writes m := by
  have hread : ¬trans.isRead = true := by
    rw [GenericPayload.isWrite, decide_eq_true_eq] at h
    simp [GenericPayload.isRead, h]
  rw [memory, if_neg hread, if_pos (.inl h)]

end Memory

namespace WrapExpander

variable {gp : GenericPayload}

/-! ### The two parts -/

theorem pos_eq (gp : GenericPayload) : pos gp = gp.address.toNat % gp.dataLength := by
  have hsplit := alignDown_add_mod gp.address.toNat gp.dataLength
  unfold pos wrapBoundary
  omega

theorem wrapBoundary_add_pos (gp : GenericPayload) : wrapBoundary gp + pos gp = gp.address.toNat := by
  rw [pos_eq, wrapBoundary, alignDown_add_mod]

theorem pos_lt (hlen : 0 < gp.dataLength) : pos gp < gp.dataLength := by
  rw [pos_eq]
  exact Nat.mod_lt _ hlen

/-- The bytes up to the end of the wrap follow the start. -/
theorem wrapAddr_first {k : ℕ} (hk : k < gp.dataLength - pos gp) : wrapAddr gp k = gp.address + BitVec.ofNat 64 k := by
  have hlt : pos gp + k < gp.dataLength := by omega
  rw [wrapAddr, Nat.mod_eq_of_lt hlt, ← Nat.add_assoc, wrapBoundary_add_pos, BitVec.ofNat_add, BitVec.ofNat_toNat, BitVec.setWidth_eq]

/-- The bytes behind it follow the wrap boundary. -/
theorem wrapAddr_second {k : ℕ} (hlen : 0 < gp.dataLength) (hk : k < pos gp) :
    wrapAddr gp (gp.dataLength - pos gp + k) = BitVec.ofNat 64 (wrapBoundary gp) + BitVec.ofNat 64 k := by
  have hpos := pos_lt hlen
  have hsum : pos gp + (gp.dataLength - pos gp + k) = gp.dataLength + k := by omega
  rw [wrapAddr, hsum, Nat.add_mod_left, Nat.mod_eq_of_lt (by omega), BitVec.ofNat_add]

theorem enabled_secondGp {t : GenericPayload} (hbe : t.byteEnable = gp.byteEnable) (k : ℕ) :
    (secondGp gp t).enabled k = gp.enabled (gp.dataLength - pos gp + k) := by
  by_cases hnil : gp.byteEnable = []
  · simp [GenericPayload.enabled, secondGp, hbe, hnil]
  · have hsub : (Aligner.sub gp (gp.dataLength - pos gp) (0, 0)).2.enabled k = gp.enabled (gp.dataLength - pos gp + k) := Aligner.sub_enabled ..
    rw [← hsub]
    simp only [GenericPayload.enabled, secondGp, Aligner.sub, if_neg hnil]
    rfl

section Linear

variable {t : GenericPayload} {k : ℕ} (hsw : ∀ k < gp.dataLength, k % gp.streamingWidth = k)
include hsw

theorem byteAddr_firstGp (hk : k < gp.dataLength - pos gp) : (firstGp gp).byteAddr k = wrapAddr gp k := by
  rw [wrapAddr_first hk, GenericPayload.byteAddr]
  simp only [firstGp, hsw k (by omega)]

theorem byteAddr_secondGp (hlen : 0 < gp.dataLength) (hwidth : t.streamingWidth = gp.streamingWidth) (hk : k < pos gp) :
    (secondGp gp t).byteAddr k = wrapAddr gp (gp.dataLength - pos gp + k) := by
  have hpos := pos_lt hlen
  rw [wrapAddr_second hlen hk, GenericPayload.byteAddr]
  simp only [secondGp, hwidth, hsw k (by omega)]

/-- Without streaming the two payloads write what the wrapping transaction writes. -/
theorem wrapWrites_eq (hlen : 0 < gp.dataLength) (hwidth : t.streamingWidth = gp.streamingWidth) (hbe : t.byteEnable = gp.byteEnable)
    (hdata : t.data = gp.data) : wrapWrites gp = (firstGp gp).writes ++ (secondGp gp t).writes := by
  have hpos := pos_lt hlen
  have hsplit : gp.dataLength = gp.dataLength - pos gp + pos gp := by omega
  rw [wrapWrites, hsplit, List.range_add, List.filterMap_append, List.filterMap_map]
  congr 1
  · refine List.filterMap_congr fun k hk => ?_
    rw [List.mem_range] at hk
    rw [← byteAddr_firstGp hsw hk]
    rfl
  · refine List.filterMap_congr fun k hk => ?_
    rw [List.mem_range] at hk
    rw [Function.comp_apply, enabled_secondGp hbe, byteAddr_secondGp hsw hlen hwidth hk]
    simp only [secondGp, hdata]

end Linear

/-! ### Both modes -/

/-- A transaction that starts at its wrap boundary goes out as it is. -/
theorem bTransport_aligned (twoGps : Bool) {mem : Addr → Byte} (hlen : 0 < gp.dataLength) (hbe : gp.byteEnable.length * 2 < 2 ^ 32)
    (hpos : pos gp = 0) : bTransport gp twoGps memory (some true) mem = some (memory gp mem) := by
  have hsum := wrapBoundary_add_pos gp
  have haddr : BitVec.ofNat 64 (wrapBoundary gp) = gp.address := by
    rw [← Nat.add_zero (wrapBoundary gp), ← hpos, hsum, BitVec.ofNat_toNat, BitVec.setWidth_eq]
  rw [bTransport, if_neg (by simp), if_neg (by omega), if_neg fun h => h.2 hpos, haddr]

/-- A linear access at the wrap boundary is a wrapping one. -/
theorem served_aligned {mem : Addr → Byte} (hpos : pos gp = 0) (hlin : Linear gp) : Served gp mem (memory gp mem) := by
  have haddr : gp.command ≠ .ignore → ∀ k < gp.dataLength, gp.enabled k = true → gp.byteAddr k = wrapAddr gp k := fun hcmd k hk hen => by
    rw [wrapAddr_first (by omega), GenericPayload.byteAddr, hlin hcmd k hk hen]
  refine ⟨fun hwrite => ?_, fun hread => ⟨memory_of_read hread, fun k hk hen => ?_⟩, fun k hk => ?_, ?_⟩
  · have hcmd : gp.command ≠ .ignore := by simp_all [GenericPayload.isWrite]
    rw [memory_of_write hwrite, GenericPayload.writes, wrapWrites]
    congr 1
    refine List.filterMap_congr fun k hk => ?_
    split
    · rename_i hen
      rw [haddr hcmd k (List.mem_range.1 hk) hen]
    · rfl
  · have hcmd : gp.command ≠ .ignore := by simp_all [GenericPayload.isRead]
    rw [memory_fst]
    exact (if_pos ⟨hread, hk, hen⟩).trans (congrArg mem (haddr hcmd k hk hen))
  · rw [memory_fst]
    exact if_neg hk
  · rw [memory_fst]

section Two

variable {mem : Addr → Byte} {t t' : GenericPayload × (Addr → Byte)}

/-- The payload a transaction that starts behind its wrap boundary comes back as. -/
theorem bTransport_two (hlen : 0 < gp.dataLength) (hbe : gp.byteEnable.length * 2 < 2 ^ 32) (hpos : pos gp ≠ 0)
    (ht : memory (firstGp gp) mem = t) (ht' : memory (secondGp gp t.1) t.2 = t') : bTransport gp true memory (some true) mem =
      some ({ gp with
        data := fun k => if k < gp.dataLength - pos gp then t.1.data k else t'.1.data (k - (gp.dataLength - pos gp))
        response := .ok }, t'.2) := by
  have hok : t.1.response = .ok := by rw [← ht, memory_fst]
  have hok' : t'.1.response = .ok := by rw [← ht', memory_fst]
  rw [bTransport, if_neg (by simp), if_neg (by omega), if_pos ⟨rfl, hpos⟩]
  dsimp only
  rw [ht, if_pos hok, ht', hok']

/-- The bytes of a transaction after both payloads. -/
theorem data_two (hlen : 0 < gp.dataLength) (hsw : ∀ k < gp.dataLength, k % gp.streamingWidth = k)
    (ht : memory (firstGp gp) mem = t) (ht' : memory (secondGp gp t.1) t.2 = t') (k : ℕ) :
    (if k < gp.dataLength - pos gp then t.1.data k else t'.1.data (k - (gp.dataLength - pos gp))) =
      if gp.isRead = true ∧ k < gp.dataLength ∧ gp.enabled k = true then mem (wrapAddr gp k) else gp.data k := by
  have hlt := pos_lt hlen
  have hfirst : ∀ k, t.1.data k =
      if gp.isRead = true ∧ k < gp.dataLength - pos gp ∧ gp.enabled k = true then mem ((firstGp gp).byteAddr k) else gp.data k := fun k => by
    rw [← ht, memory_fst]
    rfl
  have htgp : t.1.command = gp.command ∧ t.1.byteEnable = gp.byteEnable ∧ t.1.streamingWidth = gp.streamingWidth := by
    rw [← ht, memory_fst]
    exact ⟨rfl, rfl, rfl⟩
  split
  · rename_i hk
    rw [hfirst]
    by_cases hread : gp.isRead = true ∧ k < gp.dataLength ∧ gp.enabled k = true
    · rw [if_pos ⟨hread.1, hk, hread.2.2⟩, if_pos hread, byteAddr_firstGp hsw hk]
    · rw [if_neg fun h => hread ⟨h.1, by omega, h.2.2⟩, if_neg hread]
  · rename_i hk
    obtain ⟨i, rfl⟩ := Nat.exists_eq_add_of_le (Nat.le_of_not_lt hk)
    have hcmd : (secondGp gp t.1).isRead = gp.isRead := by rw [GenericPayload.isRead, GenericPayload.isRead, ← htgp.1]; rfl
    rw [Nat.add_sub_cancel_left, ← ht', memory_fst]
    dsimp only
    rw [enabled_secondGp htgp.2.1, hcmd]
    by_cases hread : gp.isRead = true ∧ gp.dataLength - pos gp + i < gp.dataLength ∧ gp.enabled (gp.dataLength - pos gp + i) = true
    · have hi : i < pos gp := by omega
      have hmem : t.2 = mem := by rw [← ht, memory_of_read (show (firstGp gp).isRead = true from hread.1)]
      rw [if_pos ⟨hread.1, hi, hread.2.2⟩, if_pos hread, byteAddr_secondGp hsw hlen htgp.2.2 hi, hmem]
    · rw [if_neg fun h => hread ⟨h.1, Nat.add_lt_of_lt_sub' (lt_of_lt_of_eq h.2.1 (by dsimp only [secondGp]; omega)), h.2.2⟩, if_neg hread]
      refine (hfirst _).trans (if_neg fun h => hread ⟨h.1, by omega, h.2.2⟩)

/-- **With two payloads** a wrapping transaction is served from every start address. -/
theorem wraps_two (hlen : 0 < gp.dataLength) (hbe : gp.byteEnable.length * 2 < 2 ^ 32) (hsw : ∀ k < gp.dataLength, k % gp.streamingWidth = k) :
    Wraps gp true := by
  intro mem
  by_cases hpos : pos gp = 0
  · exact ⟨_, bTransport_aligned true hlen hbe hpos, served_aligned hpos fun _ k hk _ => hsw k hk⟩
  · have hfst := memory_fst (firstGp gp) mem
    have hdata := data_two (t := memory (firstGp gp) mem) hlen hsw rfl rfl
    refine ⟨_, bTransport_two hlen hbe hpos rfl rfl, fun hwrite => ?_, fun hread => ⟨?_, fun k hk hen => ?_⟩, fun k hk => ?_, ?_⟩
    · have hnoread : ¬gp.isRead = true := by simp_all [GenericPayload.isWrite, GenericPayload.isRead]
      have hkept : (memory (firstGp gp) mem).1.data = gp.data := by
        rw [hfst]
        exact funext fun k => if_neg fun h => hnoread h.1
      rw [wrapWrites_eq hsw hlen (t := (memory (firstGp gp) mem).1) (by rw [hfst]; rfl) (by rw [hfst]; rfl) hkept, store_append,
        memory_of_write (show (secondGp gp (memory (firstGp gp) mem).1).isWrite = true by rw [hfst]; exact hwrite),
        memory_of_write (show (firstGp gp).isWrite = true from hwrite)]
    · rw [memory_of_read (show (secondGp gp (memory (firstGp gp) mem).1).isRead = true by rw [hfst]; exact hread),
        memory_of_read (show (firstGp gp).isRead = true from hread)]
    · exact (hdata k).trans (if_pos ⟨hread, hk, hen⟩)
    · exact (hdata k).trans (if_neg hk)
    · rfl

/-- Eight bytes written from the middle of their wrap on. -/
theorem wraps_two_write : Wraps { command := .write, address := 4, dataLength := 8, streamingWidth := 8 } true :=
  wraps_two (by decide) (by decide) (by decide)

end Two

/-! ### The modes together -/

/-- A transaction that is served has a length, and byte enables that fit twice. -/
theorem Wraps.lengths {twoGps : Bool} (h : Wraps gp twoGps) : 0 < gp.dataLength ∧ gp.byteEnable.length * 2 < 2 ^ 32 := by
  obtain ⟨r, hr, -⟩ := h fun _ => 0
  rw [bTransport, if_neg (by simp)] at hr
  split at hr
  · cases hr
  · omega

/-- **With one payload** the caller has its address back only if the transaction starts at its wrap boundary. -/
theorem Wraps.pos_eq_zero (h : Wraps gp false) : pos gp = 0 := by
  obtain ⟨hlen, hbe⟩ := h.lengths
  obtain ⟨r, hr, hserved⟩ := h fun _ => 0
  rw [bTransport, if_neg (by simp), if_neg (by omega), if_neg (by simp), Option.some.injEq] at hr
  have haddr : BitVec.ofNat 64 (wrapBoundary gp) = gp.address := by
    have hrest := congrArg GenericPayload.address hserved.restored
    rwa [← hr, memory_fst] at hrest
  have hsum := wrapBoundary_add_pos gp
  have hnat := congrArg BitVec.toNat haddr
  rw [BitVec.toNat_ofNat, Nat.mod_eq_of_lt (by omega)] at hnat
  omega

/-- A transaction at its wrap boundary that is served is not streamed. -/
theorem Wraps.linear {twoGps : Bool} (h : Wraps gp twoGps) (hpos : pos gp = 0) (h32 : gp.dataLength < 2 ^ 32) : Linear gp := by
  obtain ⟨hlen, hbe⟩ := h.lengths
  have hserved : ∀ mem, Served gp mem (memory gp mem) := fun mem => by
    obtain ⟨r, hr, hs⟩ := h mem
    rw [bTransport_aligned twoGps hlen hbe hpos, Option.some.injEq] at hr
    rwa [hr]
  have hbehind : ∀ k < gp.dataLength, ∀ j, gp.byteAddr j = wrapAddr gp k → j < gp.dataLength → j % gp.streamingWidth = k := fun k hk j haddr hj => by
    have hjlt := Nat.mod_le j gp.streamingWidth
    rw [wrapAddr_first (by omega), GenericPayload.byteAddr, BitVec.add_right_inj] at haddr
    have hnat := congrArg BitVec.toNat haddr
    rwa [BitVec.toNat_ofNat, BitVec.toNat_ofNat, Nat.mod_eq_of_lt (show j % gp.streamingWidth < 2 ^ 64 by omega),
      Nat.mod_eq_of_lt (show k < 2 ^ 64 by omega)] at hnat
  intro hcmd k hk hen
  cases hc : gp.command with
  | ignore => exact absurd hc hcmd
  | read =>
    have hread : gp.isRead = true := decide_eq_true hc
    -- a memory that tells the address of the byte from all others
    obtain hr := ((hserved fun x => if x = wrapAddr gp k then 1 else 0).read hread).2 k hk hen
    rw [memory_fst] at hr
    dsimp only at hr
    rw [if_pos ⟨hread, hk, hen⟩, if_pos rfl] at hr
    exact hbehind k hk k (by_contra fun hne => absurd hr (by rw [if_neg hne]; decide)) hk
  | write =>
    have : Nontrivial Byte := ⟨0, 1, by simp⟩
    have hwrite : gp.isWrite = true := decide_eq_true hc
    have hstore : ∀ mem : Addr → Byte, store (wrapWrites gp) mem = store gp.writes mem := fun mem => by
      rw [← (hserved mem).write hwrite, memory_of_write hwrite]
    have hmem : wrapAddr gp k ∈ (wrapWrites gp).map Prod.fst :=
      List.mem_map.2 ⟨_, List.mem_filterMap.2 ⟨k, List.mem_range.2 hk, if_pos hen⟩, rfl⟩
    obtain ⟨p, hp, hpk⟩ := List.mem_map.1 (mem_of_store_eq hstore hmem)
    obtain ⟨j, hj, hjp⟩ := List.mem_filterMap.1 hp
    have hmod : j % gp.streamingWidth = k := by
      refine hbehind k hk j ?_ (List.mem_range.1 hj)
      split at hjp
      · rw [← hpk, ← Option.some.inj hjp]
      · cases hjp
    rw [← hmod, Nat.mod_mod]

/-- **The wrap expander.** Both modes serve a wrapping transaction exactly if it has a length, its byte enables fit twice
into their buffer, it starts at its wrap boundary and is not streamed. -/
theorem expands_iff (gp : GenericPayload) (h32 : gp.dataLength < 2 ^ 32) :
    Wraps gp false ∧ Wraps gp true ↔
      0 < gp.dataLength ∧ gp.byteEnable.length * 2 < 2 ^ 32 ∧ gp.dataLength ∣ gp.address.toNat ∧ Linear gp := by
  rw [Nat.dvd_iff_mod_eq_zero, ← pos_eq]
  constructor
  · rintro ⟨hone, htwo⟩
    exact ⟨hone.lengths.1, hone.lengths.2, hone.pos_eq_zero, hone.linear hone.pos_eq_zero h32⟩
  · rintro ⟨hlen, hbe, hpos, hlin⟩
    have hboth : ∀ twoGps, Wraps gp twoGps := fun twoGps mem => ⟨_, bTransport_aligned twoGps hlen hbe hpos, served_aligned hpos hlin⟩
    exact ⟨hboth false, hboth true⟩

/-- A word written at its wrap boundary. -/
theorem wraps_word : Wraps { command := .write, address := 4, dataLength := 4, streamingWidth := 4 } false ∧
    Wraps { command := .write, address := 4, dataLength := 4, streamingWidth := 4 } true :=
  (expands_iff _ (by decide)).2 ⟨by decide, by decide, ⟨1, rfl⟩, fun _ => by decide⟩

/-- A write of eight bytes from address 4 on. -/
theorem not_wraps : ¬ ∀ gp : GenericPayload, 0 < gp.dataLength → (∀ k < gp.dataLength, k % gp.streamingWidth = k) → Wraps gp false ∧ Wraps gp true := by
  intro h
  obtain ⟨hone, -⟩ := h { command := .write, address := 4, dataLength := 8, streamingWidth := 8 } (by decide) (by decide)
  exact absurd hone.pos_eq_zero (by decide)

/-- The byte such a write puts at its start: with one payload that of the wrap's fifth address, with two its first. -/
example : ([false, true].map fun twoGps => (bTransport
    { command := .write, address := 4, data := fun k => BitVec.ofNat 8 k, dataLength := 8, streamingWidth := 8 }
    twoGps memory (some true) fun _ => 0xff).map (·.2 4)) = [some 4, some 0] := by decide

end WrapExpander

end LibSystemCTLM.Tlm
