import LibSystemCTLM.RemotePort.Proto

/-!
# What decoding a packet does

Fields that are there are swapped and the decoder goes on (`toHost_eq`); a field that is not there
is the fault `outside`. From that, what a bus access is after it was decoded, in either layout
(`decodeBusaccess_base`, `decodeBusaccess_ext`).
-/

namespace LibSystemCTLM.RemotePort

open Foundation

namespace Packet

variable {v w : ℕ} {k : Packet} {f : Field w} {g : Field v} {n : ℕ}

/-- The packet with a field swapped. -/
def swap (k : Packet) (f : Field w) : Packet := k.write f (bswap (f.get k.mem))

@[simp] theorem hdr_write (k : Packet) (f : Field w) (x : BitVec w) : (k.write f x).hdr = k.hdr := rfl

@[simp] theorem hdr_swap (k : Packet) (f : Field w) : (k.swap f).hdr = k.hdr := rfl

theorem get_swap (k : Packet) (f : Field w) : f.get (k.swap f).mem = bswap (f.get k.mem) := f.get_put _ _

theorem get_swap_of_apart (h : g.Apart f) (k : Packet) : g.get (k.swap f).mem = g.get k.mem := Field.get_put_of_apart h _ _

theorem mem_swap_of_outside {p : ℕ} (h : p < f.off ∨ f.stop ≤ p) (k : Packet) : (k.swap f).mem p = k.mem p := f.put_of_outside _ _ h

@[simp] theorem mem_write (k : Packet) (f : Field w) (x : BitVec w) : (k.write f x).mem = f.put x k.mem := rfl

theorem has_iff : k.Has f ↔ ∀ i < f.size, k.known (f.off + i) = true := by simp [Has, List.mem_range]

theorem read_eq (h : k.Has f) : k.read f = .ok (f.get k.mem) := if_pos h

theorem toHost_eq (h : k.Has f) : k.toHost f = .ok (k.swap f) := by
  rw [toHost, read_eq h]
  rfl

theorem toHost_of_not_has (h : ¬ k.Has f) : k.toHost f = .error .outside := by
  rw [toHost, read, if_neg h]
  rfl

theorem known_write {p : ℕ} (x : BitVec w) (h : k.known p = true) : (k.write f x).known p = true := by
  simp [write, h]

theorem Has.write (h : k.Has g) (x : BitVec w) : (k.write f x).Has g := fun i hi => known_write x (h i hi)

theorem has_write_self (x : BitVec w) : (k.write f x).Has f := by
  rw [has_iff]
  intro i hi
  simp [Packet.write, Field.stop, hi]

/-- All payload bytes up to `n` are there. -/
def Covers (k : Packet) (n : ℕ) : Prop := ∀ p, Hdr.size ≤ p → p < n → k.known p = true

theorem Covers.write (h : k.Covers n) (x : BitVec w) : (k.write f x).Covers n := fun p hp hn => known_write x (h p hp hn)

theorem Covers.swap (h : k.Covers n) (f : Field w) : (k.swap f).Covers n := h.write _

theorem Covers.has (h : k.Covers n) (hf : Hdr.size ≤ f.off ∧ f.stop ≤ n) : k.Has f := by
  rw [has_iff]
  intro i hi
  have hstop : f.stop = f.off + f.size := rfl
  exact h _ (by omega) (by omega)

theorem Covers.toHost (h : k.Covers n) (hf : Hdr.size ≤ f.off ∧ f.stop ≤ n) : k.toHost f = .ok (k.swap f) := toHost_eq (h.has hf)

theorem Covers.read (h : k.Covers n) (hf : Hdr.size ≤ f.off ∧ f.stop ≤ n) : k.read f = .ok (f.get k.mem) := read_eq (h.has hf)

theorem Covers.mono {n' : ℕ} (h : k.Covers n) (hn : n' ≤ n) : k.Covers n' := fun p hp hlt => h p hp (by omega)

end Packet

@[simp] theorem ok_bind {α β : Type} (a : α) (f : α → Except Fault β) : (Except.ok a >>= f) = f a := rfl

@[simp] theorem error_bind {α β : Type} (e : Fault) (f : α → Except Fault β) : (Except.error e >>= f) = .error e := rfl

theorem bind_eq_ok {α β : Type} {x : Except Fault α} {f : α → Except Fault β} {b : β} (h : (x >>= f) = .ok b) :
    ∃ a, x = .ok a ∧ f a = .ok b := by
  cases x with
  | error e => cases h
  | ok a => exact ⟨a, rfl, h⟩

theorem Packet.toHost_ok {w : ℕ} {f : Field w} {k k' : Packet} (h : k.toHost f = .ok k') : k.Has f ∧ k' = k.swap f := by
  by_cases hf : k.Has f
  · rw [Packet.toHost_eq hf] at h
    exact ⟨hf, (Except.ok.inj h).symm⟩
  · rw [Packet.toHost_of_not_has hf] at h
    cases h

theorem Packet.read_ok {w : ℕ} {f : Field w} {k : Packet} {x : BitVec w} (h : k.read f = .ok x) : x = f.get k.mem := by
  unfold Packet.read at h
  split at h
  · exact (Except.ok.inj h).symm
  · cases h

theorem receive_covers {wire : Image} {n : ℕ} (h : n ≤ Hdr.size + (receive wire).hdr.len.toNat) : (receive wire).Covers n := by
  intro p hp hn
  have hlt : p < Hdr.size + (decodeHdr wire).len.toNat := lt_of_lt_of_le hn h
  simp [receive, hp, hlt]

/-! ### A bus access -/

/-- The field `master_id` of a packet has only the low half word of the master id. -/
theorem setWidth_masterId (low mid : BitVec 16) (high : BitVec 32) :
    (low.setWidth 64 ||| mid.setWidth 64 <<< 16 ||| high.setWidth 64 <<< 32).setWidth 16 = low := by
  apply BitVec.eq_of_getLsbD_eq
  intro i hi
  simp [hi]

section Busaccess

variable {k : Packet} {n : ℕ}

/-- The fields that both layouts have, without the master id, are swapped. -/
def swapBase (k : Packet) : Packet :=
  (((((k.swap Busaccess.timestamp).swap Busaccess.addr).swap Busaccess.attributes).swap Busaccess.len).swap Busaccess.width).swap
    Busaccess.streamWidth

/-- The fields that only the new layout has, without the master id, are swapped. -/
def swapExt (k : Packet) : Packet :=
  (((k.swap Busaccess.dataOffset).swap Busaccess.nextOffset).swap Busaccess.byteEnableOffset).swap Busaccess.byteEnableLen

theorem swapBase_covers (h : k.Covers n) : (swapBase k).Covers n := (((((h.swap _).swap _).swap _).swap _).swap _).swap _

/-- A field apart from those that are swapped. -/
theorem get_swapBase {w : ℕ} {f : Field w} (h : f.stop ≤ 20 ∨ 56 ≤ f.off) (k : Packet) : f.get (swapBase k).mem = f.get k.mem := by
  have hap : ∀ {v : ℕ} (g : Field v), 20 ≤ g.off ∧ g.stop ≤ 56 → f.Apart g := by
    intro v g hg
    rcases h with h | h
    · exact .inl (by omega)
    · exact .inr (by omega)
  simp only [swapBase]
  rw [Packet.get_swap_of_apart (hap _ (by decide)), Packet.get_swap_of_apart (hap _ (by decide)), Packet.get_swap_of_apart (hap _ (by decide)),
    Packet.get_swap_of_apart (hap _ (by decide)), Packet.get_swap_of_apart (hap _ (by decide)), Packet.get_swap_of_apart (hap _ (by decide))]

theorem get_swapExt {w : ℕ} {f : Field w} (h : f.stop ≤ 64 ∨ 80 ≤ f.off) (k : Packet) : f.get (swapExt k).mem = f.get k.mem := by
  have hap : ∀ {v : ℕ} (g : Field v), 64 ≤ g.off ∧ g.stop ≤ 80 → f.Apart g := by
    intro v g hg
    rcases h with h | h
    · exact .inl (by omega)
    · exact .inr (by omega)
  simp only [swapExt]
  rw [Packet.get_swap_of_apart (hap _ (by decide)), Packet.get_swap_of_apart (hap _ (by decide)), Packet.get_swap_of_apart (hap _ (by decide)),
    Packet.get_swap_of_apart (hap _ (by decide))]

/-- The fields of a bus access are in host order, and from `n` on nothing has changed. -/
structure BusaccessHost (n : ℕ) (k k' : Packet) : Prop where
  hdr : k'.hdr = k.hdr
  timestamp : Busaccess.timestamp.get k'.mem = bswap (Busaccess.timestamp.get k.mem)
  attributes : Busaccess.attributes.get k'.mem = bswap (Busaccess.attributes.get k.mem)
  addr : Busaccess.addr.get k'.mem = bswap (Busaccess.addr.get k.mem)
  len : Busaccess.len.get k'.mem = bswap (Busaccess.len.get k.mem)
  width : Busaccess.width.get k'.mem = bswap (Busaccess.width.get k.mem)
  streamWidth : Busaccess.streamWidth.get k'.mem = bswap (Busaccess.streamWidth.get k.mem)
  masterId : Busaccess.masterId.get k'.mem = bswap (Busaccess.masterId.get k.mem)
  rest : ∀ p, n ≤ p → k'.mem p = k.mem p

theorem mem_swapBase {p : ℕ} (h : 56 ≤ p) (k : Packet) : (swapBase k).mem p = k.mem p := by
  have hout : ∀ {w : ℕ} (f : Field w) (k : Packet), f.stop ≤ 56 → (k.swap f).mem p = k.mem p := fun f k hf =>
    Packet.mem_swap_of_outside (.inr (by omega)) k
  simp only [swapBase]
  rw [hout _ _ (by decide), hout _ _ (by decide), hout _ _ (by decide), hout _ _ (by decide), hout _ _ (by decide), hout _ _ (by decide)]

theorem mem_swapExt {p : ℕ} (h : 80 ≤ p) (k : Packet) : (swapExt k).mem p = k.mem p := by
  have hout : ∀ {w : ℕ} (f : Field w) (k : Packet), f.stop ≤ 80 → (k.swap f).mem p = k.mem p := fun f k hf =>
    Packet.mem_swap_of_outside (.inr (by omega)) k
  simp only [swapExt]
  rw [hout _ _ (by decide), hout _ _ (by decide), hout _ _ (by decide), hout _ _ (by decide)]

/-- A packet that has the swapped fields, and the low half word of the master id. -/
theorem busaccessHost_write {k : Packet} (k' : Packet) {n : ℕ} (hn : 58 ≤ n) (hhdr : k'.hdr = k.hdr)
    (hget : ∀ {w : ℕ} (f : Field w), 20 ≤ f.off ∧ f.stop ≤ 56 → f.get k'.mem = f.get (swapBase k).mem)
    (hrest : ∀ p, n ≤ p → k'.mem p = k.mem p) :
    BusaccessHost n k (k'.write Busaccess.masterId (bswap (Busaccess.masterId.get k.mem))) := by
  have hfield : ∀ {w : ℕ} (f : Field w), 20 ≤ f.off ∧ f.stop ≤ 56 →
      f.get (k'.write Busaccess.masterId (bswap (Busaccess.masterId.get k.mem))).mem = f.get (swapBase k).mem := by
    intro w f hf
    have hap : f.Apart Busaccess.masterId := .inl hf.2
    rw [← hget f hf]
    exact Field.get_put_of_apart hap _ _
  constructor
  case hdr => exact hhdr
  case timestamp =>
    rw [hfield _ (by decide)]
    simp (disch := decide) only [swapBase, Packet.get_swap_of_apart, Packet.get_swap]
  case attributes =>
    rw [hfield _ (by decide)]
    simp (disch := decide) only [swapBase, Packet.get_swap_of_apart, Packet.get_swap]
  case addr =>
    rw [hfield _ (by decide)]
    simp (disch := decide) only [swapBase, Packet.get_swap_of_apart, Packet.get_swap]
  case len =>
    rw [hfield _ (by decide)]
    simp (disch := decide) only [swapBase, Packet.get_swap_of_apart, Packet.get_swap]
  case width =>
    rw [hfield _ (by decide)]
    simp (disch := decide) only [swapBase, Packet.get_swap_of_apart, Packet.get_swap]
  case streamWidth =>
    rw [hfield _ (by decide)]
    simp (disch := decide) only [swapBase, Packet.get_swap_of_apart, Packet.get_swap]
  case masterId => exact Field.get_put ..
  case rest =>
    intro p hp
    have hout : p < Busaccess.masterId.off ∨ Busaccess.masterId.stop ≤ p := .inr (le_trans hn hp)
    rw [← hrest p hp]
    exact Field.put_of_outside _ _ _ hout

theorem baseToHost_eq (hc : k.Covers 56) : baseToHost k = .ok (swapBase k) := by
  have hin : ∀ {w : ℕ} (f : Field w) {k : Packet}, k.Covers 56 → 20 ≤ f.off ∧ f.stop ≤ 56 → k.toHost f = .ok (k.swap f) :=
    fun f _ h hf => h.toHost hf
  rw [baseToHost, hin _ hc (by decide), ok_bind, hin _ (hc.swap _) (by decide), ok_bind, hin _ ((hc.swap _).swap _) (by decide), ok_bind,
    hin _ (((hc.swap _).swap _).swap _) (by decide), ok_bind, hin _ ((((hc.swap _).swap _).swap _).swap _) (by decide), ok_bind,
    hin _ (((((hc.swap _).swap _).swap _).swap _).swap _) (by decide)]
  rfl

theorem extToHost_eq (hc : k.Covers 80) : extToHost k = .ok (swapExt k) := by
  have hin : ∀ {w : ℕ} (f : Field w) {k : Packet}, k.Covers 80 → 20 ≤ f.off ∧ f.stop ≤ 80 → k.toHost f = .ok (k.swap f) :=
    fun f _ h hf => h.toHost hf
  rw [extToHost, hin _ hc (by decide), ok_bind, hin _ (hc.swap _) (by decide), ok_bind, hin _ ((hc.swap _).swap _) (by decide), ok_bind,
    hin _ (((hc.swap _).swap _).swap _) (by decide)]
  rfl

theorem baseToHost_ok {k' : Packet} (h : baseToHost k = .ok k') : k' = swapBase k := by
  unfold baseToHost at h
  obtain ⟨k₁, h₁, h⟩ := bind_eq_ok h
  obtain ⟨k₂, h₂, h⟩ := bind_eq_ok h
  obtain ⟨k₃, h₃, h⟩ := bind_eq_ok h
  obtain ⟨k₄, h₄, h⟩ := bind_eq_ok h
  obtain ⟨k₅, h₅, h⟩ := bind_eq_ok h
  rw [(Packet.toHost_ok h).2, (Packet.toHost_ok h₅).2, (Packet.toHost_ok h₄).2, (Packet.toHost_ok h₃).2, (Packet.toHost_ok h₂).2,
    (Packet.toHost_ok h₁).2]
  rfl

theorem extToHost_ok {k' : Packet} (h : extToHost k = .ok k') : k' = swapExt k := by
  unfold extToHost at h
  obtain ⟨k₁, h₁, h⟩ := bind_eq_ok h
  obtain ⟨k₂, h₂, h⟩ := bind_eq_ok h
  obtain ⟨k₃, h₃, h⟩ := bind_eq_ok h
  rw [(Packet.toHost_ok h).2, (Packet.toHost_ok h₃).2, (Packet.toHost_ok h₂).2, (Packet.toHost_ok h₁).2]
  rfl

theorem attributes_swapBase (k : Packet) : Busaccess.attributes.get (swapBase k).mem = bswap (Busaccess.attributes.get k.mem) := by
  simp (disch := decide) only [swapBase, Packet.get_swap_of_apart, Packet.get_swap]

/-- What was decoded: the layout that the attributes tell fits in the packet. -/
theorem decodeBusaccess_ok {k' : Packet} {used : ℕ} (h : decodeBusaccess k = .ok (k', used)) :
    BusaccessHost (used + Hdr.size) k k' ∧ used ≤ k.hdr.len.toNat ∧
      used + Hdr.size = if bswap (Busaccess.attributes.get k.mem) &&& attrExtBase = 0 then Busaccess.size else Busaccess.sizeExt := by
  unfold decodeBusaccess at h
  split at h
  · cases h
  · rename_i hlen
    obtain ⟨k₁, h₁, h⟩ := bind_eq_ok h
    obtain rfl := baseToHost_ok h₁
    obtain ⟨low, hlow, h⟩ := bind_eq_ok h
    obtain rfl := Packet.read_ok hlow
    obtain ⟨attributes, hattr, h⟩ := bind_eq_ok h
    obtain rfl := Packet.read_ok hattr
    have hl : Busaccess.masterId.get (swapBase k).mem = Busaccess.masterId.get k.mem := get_swapBase (.inr (by decide)) k
    rw [attributes_swapBase] at h
    split at h
    · rename_i hext
      split at h
      · cases h
      · rename_i hlen'
        obtain ⟨mid, -, h⟩ := bind_eq_ok h
        obtain ⟨high, -, h⟩ := bind_eq_ok h
        obtain ⟨k₂, h₂, h⟩ := bind_eq_ok h
        obtain rfl := extToHost_ok h₂
        obtain ⟨rfl, rfl⟩ := Prod.mk.inj (Except.ok.inj h)
        rw [setWidth_masterId, hl, if_neg hext]
        exact ⟨busaccessHost_write (swapExt (swapBase k)) (by decide) rfl (fun f hf => get_swapExt (.inl (by omega)) _) fun p hp => by
          rw [mem_swapExt hp, mem_swapBase (le_trans (by decide) hp)], Nat.not_lt.1 hlen', rfl⟩
    · rename_i hbase
      obtain ⟨rfl, rfl⟩ := Prod.mk.inj (Except.ok.inj h)
      rw [BitVec.setWidth_setWidth_of_le _ (by decide), BitVec.setWidth_eq, hl, if_pos (not_not.1 hbase)]
      exact ⟨busaccessHost_write (swapBase k) le_rfl rfl (fun _ _ => rfl) fun p hp => mem_swapBase (le_trans (by decide) hp) k,
        Nat.not_lt.1 hlen, rfl⟩

theorem decodeBusaccess_base (hlen : Busaccess.size - Hdr.size ≤ k.hdr.len.toNat) (hc : k.Covers Busaccess.size)
    (hattr : bswap (Busaccess.attributes.get k.mem) &&& attrExtBase = 0) :
    ∃ k', decodeBusaccess k = .ok (k', Busaccess.size - Hdr.size) ∧ BusaccessHost Busaccess.size k k' := by
  refine ⟨_, ?_, busaccessHost_write (swapBase k) le_rfl rfl (fun _ _ => rfl) fun p hp => mem_swapBase (le_trans (by decide) hp) k⟩
  have hb := swapBase_covers hc
  have hlow : Busaccess.masterId.get (swapBase k).mem = Busaccess.masterId.get k.mem := get_swapBase (.inr (by decide)) k
  unfold decodeBusaccess
  rw [if_neg (Nat.not_lt.2 hlen), baseToHost_eq (hc.mono (by decide)), ok_bind, hb.read (by decide), ok_bind, hb.read (by decide), ok_bind,
    attributes_swapBase, if_neg (not_not.2 hattr), hlow, BitVec.setWidth_setWidth_of_le _ (by decide), BitVec.setWidth_eq]
  rfl

theorem decodeBusaccess_ext (hlen : Busaccess.sizeExt - Hdr.size ≤ k.hdr.len.toNat) (hc : k.Covers Busaccess.sizeExt)
    (hattr : bswap (Busaccess.attributes.get k.mem) &&& attrExtBase ≠ 0) :
    ∃ k', decodeBusaccess k = .ok (k', Busaccess.sizeExt - Hdr.size) ∧ BusaccessHost Busaccess.sizeExt k k' ∧
      Busaccess.dataOffset.get k'.mem = bswap (Busaccess.dataOffset.get k.mem) ∧
      Busaccess.byteEnableOffset.get k'.mem = bswap (Busaccess.byteEnableOffset.get k.mem) ∧
      Busaccess.byteEnableLen.get k'.mem = bswap (Busaccess.byteEnableLen.get k.mem) := by
  have hb := swapBase_covers hc
  have hlow : Busaccess.masterId.get (swapBase k).mem = Busaccess.masterId.get k.mem := get_swapBase (.inr (by decide)) k
  refine ⟨_, ?_, busaccessHost_write (swapExt (swapBase k)) (by decide) rfl (fun f hf => get_swapExt (.inl (by omega)) _) fun p hp => ?_,
    ?_, ?_, ?_⟩
  · have hlen' : ¬ (swapBase k).hdr.len.toNat < Busaccess.sizeExt - Hdr.size := Nat.not_lt.2 hlen
    unfold decodeBusaccess
    rw [if_neg (Nat.not_lt.2 (le_trans (by decide) hlen)), baseToHost_eq (hc.mono (by decide)), ok_bind, hb.read (by decide), ok_bind,
      hb.read (by decide), ok_bind, attributes_swapBase, if_pos hattr, if_neg hlen', hb.read (by decide), ok_bind,
      hb.read (by decide), ok_bind, extToHost_eq hb, ok_bind, hlow, setWidth_masterId]
    rfl
  · rw [mem_swapExt hp, mem_swapBase (le_trans (by decide) hp)]
  all_goals
    rw [Packet.mem_write, Field.get_put_of_apart (by decide)]
    simp (disch := decide) only [swapExt, Packet.get_swap_of_apart, Packet.get_swap, get_swapBase]

end Busaccess

end LibSystemCTLM.RemotePort
