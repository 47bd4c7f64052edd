import LibSystemCTLM.RemotePort.Decode

/-!
# Decoding stays inside the packet

A packet of the peer is processed safely (`Safe`) when the decoder and the hello processing read
and swap payload bytes that were received and no others, or reject the packet. Bus accesses are
checked before they are decoded and always safe. The others are safe exactly when they are long
enough (`safe_iff`): an interrupt, a sync or a translation packet is decoded without a look at its
length, and the capabilities of a hello are where the peer says they are, without a check.
-/

namespace LibSystemCTLM.RemotePort

open Foundation

/-- The decoder and the hello processing never touch a byte that was not received. -/
def Safe (peer : PeerCaps) (wire : Image) : Prop := process peer wire ≠ .error .outside

/-- A field lies in the payload of a packet whose header says `len`. -/
def InPayload {w : ℕ} (len : ℕ) (f : Field w) : Prop := Hdr.size ≤ f.off ∧ f.stop ≤ Hdr.size + len

instance {w : ℕ} (len : ℕ) (f : Field w) : Decidable (InPayload len f) := inferInstanceAs (Decidable (_ ∧ _))

/-! ### The capabilities -/

/-- The image after the first `n` capabilities were swapped. -/
def swapCaps (offset : ℕ) (m : Image) : ℕ → Image
  | 0 => m
  | n + 1 => (capField offset n).put (bswap ((capField offset n).get (swapCaps offset m n))) (swapCaps offset m n)

/-- The number of capabilities that the image says there are. -/
def capsLen (m : Image) : ℕ := (Hello.capsLen.get m).toNat

/-- The payload of a hello in host order, but for the capabilities. -/
def helloImage (wire : Image) : Image :=
  Hello.capsLen.put (bswap (Hello.capsLen.get wire)) (Hello.capsOffset.put (bswap (Hello.capsOffset.get wire))
    (Hello.minor.put (bswap (Hello.minor.get wire)) (Hello.major.put (bswap (Hello.major.get wire)) wire)))

/-- The offset of the capabilities in a hello. -/
def capsOffset (m : Image) : ℕ := (Hello.capsOffset.get m).toNat

/-- The capabilities fit in a hello of `len` bytes: all words that are swapped lie in the payload, where the
number of the words is read again after each of them, and `accepted` of the result that the hello is
processed further, so do all that are looked at. -/
def CapsFit (len : ℕ) (accepted : Image → Prop) (m : Image) : Prop :=
  ∃ n, (∀ j < n, j < capsLen (swapCaps (capsOffset m) m j) ∧ InPayload len (capField (capsOffset m) j)) ∧
    capsLen (swapCaps (capsOffset m) m n) ≤ n ∧
    (accepted (swapCaps (capsOffset m) m n) → ∀ j < capsLen (swapCaps (capsOffset m) m n),
      InPayload len (capField (capsOffset (swapCaps (capsOffset m) m n)) j))

/-- The hello is processed further: it is no response, the version is right, and it is the first one that
brings the peer's layout. -/
def HelloAccepted (peer : PeerCaps) (h : Hdr) (m : Image) : Prop :=
  h.flags &&& flagResponse = 0 ∧ Hello.major.get m = versionMajor ∧ peer.busaccessExtBase = false

/-- The packet is long enough for what is decoded of it. -/
def LongEnough (peer : PeerCaps) (wire : Image) : Prop :=
  let h := decodeHdr wire
  if h.cmd = Cmd.hello then 12 ≤ h.len.toNat → CapsFit h.len.toNat (HelloAccepted peer h) (helloImage wire)
  else if h.cmd = Cmd.interrupt then 21 ≤ h.len.toNat
  else if h.cmd = Cmd.sync then 8 ≤ h.len.toNat
  else if h.cmd = Cmd.atsReq ∨ h.cmd = Cmd.atsInv then 36 ≤ h.len.toNat
  else True

/-! ### What is there -/

namespace Packet

variable {w : ℕ} {k : Packet} {f : Field w} {len : ℕ}

/-- The payload bytes that are there are those that were received. -/
def Exact (k : Packet) (len : ℕ) : Prop := ∀ p, k.known p = true ↔ Hdr.size ≤ p ∧ p < Hdr.size + len

theorem Exact.has_iff (h : k.Exact len) (hf : 0 < f.size) : k.Has f ↔ InPayload len f := by
  rw [Packet.has_iff]
  have hstop : f.stop = f.off + f.size := rfl
  constructor
  · intro hall
    have hfirst := (h _).1 (hall 0 hf)
    have hlast := (h _).1 (hall (f.size - 1) (by omega))
    exact ⟨by omega, by omega⟩
  · intro hin i hi
    rw [h]
    obtain ⟨h₁, h₂⟩ := hin
    omega

theorem Exact.swap (h : k.Exact len) (hf : InPayload len f) : (k.swap f).Exact len := by
  intro p
  rw [← h p]
  simp only [Packet.swap, write, Bool.or_eq_true, Bool.and_eq_true, decide_eq_true_eq]
  constructor
  · rintro (hp | ⟨hle, hlt⟩)
    · exact hp
    · rw [h]
      obtain ⟨h₁, h₂⟩ := hf
      omega
  · exact .inl

/-- A field is swapped if it is in the payload. -/
theorem Exact.toHost (h : k.Exact len) (hf : 0 < f.size) (hin : InPayload len f) : k.toHost f = .ok (k.swap f) :=
  toHost_eq ((h.has_iff hf).2 hin)

theorem Exact.toHost_outside (h : k.Exact len) (hf : 0 < f.size) (hin : ¬ InPayload len f) : k.toHost f = .error .outside :=
  toHost_of_not_has fun hh => hin ((h.has_iff hf).1 hh)

theorem Exact.read (h : k.Exact len) (hf : 0 < f.size) (hin : InPayload len f) : k.read f = .ok (f.get k.mem) :=
  read_eq ((h.has_iff hf).2 hin)

theorem Exact.read_outside (h : k.Exact len) (hf : 0 < f.size) (hin : ¬ InPayload len f) : k.read f = .error .outside :=
  if_neg fun hh => hin ((h.has_iff hf).1 hh)

end Packet

theorem receive_exact (wire : Image) : (receive wire).Exact (decodeHdr wire).len.toNat := by
  intro p
  simp [receive]

/-! ### Straight decoders -/

section Straight

variable {k : Packet} {len : ℕ}

/-- A field that has to be swapped first has to be in the payload. -/
theorem safe_toHost_bind {w : ℕ} {f : Field w} {β : Type} {g : Packet → Except Fault β} {P : Prop} (h : k.Exact len) (hf : 0 < f.size)
    (hg : InPayload len f → (g (k.swap f) ≠ .error .outside ↔ P)) : (k.toHost f >>= g) ≠ .error .outside ↔ InPayload len f ∧ P := by
  by_cases hin : InPayload len f
  · rw [h.toHost hf hin, ok_bind, hg hin]
    exact (and_iff_right hin).symm
  · rw [h.toHost_outside hf hin, error_bind]
    exact iff_of_false (fun hne => hne rfl) fun hp => hin hp.1

theorem safe_read_bind {w : ℕ} {f : Field w} {β : Type} {g : BitVec w → Except Fault β} {P : Prop} (h : k.Exact len) (hf : 0 < f.size)
    (hg : InPayload len f → (g (f.get k.mem) ≠ .error .outside ↔ P)) : (k.read f >>= g) ≠ .error .outside ↔ InPayload len f ∧ P := by
  by_cases hin : InPayload len f
  · rw [h.read hf hin, ok_bind, hg hin]
    exact (and_iff_right hin).symm
  · rw [h.read_outside hf hin, error_bind]
    exact iff_of_false (fun hne => hne rfl) fun hp => hin hp.1

/-- What a decoder hands on was decoded safely. -/
theorem safe_map {α β : Type} {x : Except Fault α} (g : α → β) : (x >>= fun a => pure (g a)) ≠ .error .outside ↔ x ≠ .error .outside := by
  cases x with
  | error e => simp
  | ok a => simp [ok_bind, pure, Except.pure]

theorem safe_toHost {w : ℕ} {f : Field w} (h : k.Exact len) (hf : 0 < f.size) : k.toHost f ≠ .error .outside ↔ InPayload len f := by
  by_cases hin : InPayload len f
  · rw [h.toHost hf hin]
    simp [hin]
  · rw [h.toHost_outside hf hin]
    simp [hin]

theorem decodeInterrupt_safe_iff (h : k.Exact len) : decodeInterrupt k ≠ .error .outside ↔ 21 ≤ len := by
  have hsteps : decodeInterrupt k ≠ .error .outside ↔ InPayload len Interrupt.timestamp ∧ InPayload len Interrupt.vector ∧
      InPayload len Interrupt.line ∧ InPayload len Interrupt.val ∧ True :=
    safe_toHost_bind h (by decide) fun h₁ => safe_toHost_bind (h.swap h₁) (by decide) fun h₂ =>
      safe_toHost_bind ((h.swap h₁).swap h₂) (by decide) fun h₃ => safe_read_bind (((h.swap h₁).swap h₂).swap h₃) (by decide) fun _ =>
        iff_of_true (by simp [pure, Except.pure]) trivial
  rw [hsteps, and_true]
  simp only [InPayload, Hdr.size, Interrupt.timestamp, Interrupt.vector, Interrupt.line, Interrupt.val, Field.stop, Field.size]
  omega

theorem decodeAts_safe_iff (h : k.Exact len) : decodeAts k ≠ .error .outside ↔ 36 ≤ len := by
  have hsteps : decodeAts k ≠ .error .outside ↔ InPayload len Ats.attributes ∧ InPayload len Ats.addr ∧ InPayload len Ats.len ∧
      InPayload len Ats.result :=
    safe_toHost_bind h (by decide) fun h₁ => safe_toHost_bind (h.swap h₁) (by decide) fun h₂ =>
      safe_toHost_bind ((h.swap h₁).swap h₂) (by decide) fun h₃ => safe_toHost (((h.swap h₁).swap h₂).swap h₃) (by decide)
  rw [hsteps]
  simp only [InPayload, Hdr.size, Ats.attributes, Ats.addr, Ats.len, Ats.result, Field.stop, Field.size]
  omega

theorem decodeInterrupt_hdr {k' : Packet} (h : decodeInterrupt k = .ok k') : k'.hdr = k.hdr := by
  unfold decodeInterrupt at h
  obtain ⟨k₁, h₁, h⟩ := bind_eq_ok h
  obtain ⟨k₂, h₂, h⟩ := bind_eq_ok h
  obtain ⟨k₃, h₃, h⟩ := bind_eq_ok h
  obtain ⟨val, -, h⟩ := bind_eq_ok h
  rw [← Except.ok.inj h, Packet.hdr_write, (Packet.toHost_ok h₃).2, (Packet.toHost_ok h₂).2, (Packet.toHost_ok h₁).2]
  rfl

theorem decodeAts_hdr {k' : Packet} (h : decodeAts k = .ok k') : k'.hdr = k.hdr := by
  unfold decodeAts at h
  obtain ⟨k₁, h₁, h⟩ := bind_eq_ok h
  obtain ⟨k₂, h₂, h⟩ := bind_eq_ok h
  obtain ⟨k₃, h₃, h⟩ := bind_eq_ok h
  rw [(Packet.toHost_ok h).2, (Packet.toHost_ok h₃).2, (Packet.toHost_ok h₂).2, (Packet.toHost_ok h₁).2]
  rfl

/-- The command of a packet that is no hello stays what it is. -/
theorem decodePayload_hdr {k' : Packet} {used : ℕ} (hc : k.hdr.cmd ≠ Cmd.hello) (h : decodePayload k = .ok (k', used)) : k'.hdr = k.hdr := by
  unfold decodePayload at h
  rw [if_neg hc] at h
  split at h
  · exact (decodeBusaccess_ok h).1.hdr
  · split at h
    · obtain ⟨k₁, h₁, h⟩ := bind_eq_ok h
      rw [← (Prod.mk.inj (Except.ok.inj h)).1, decodeInterrupt_hdr h₁]
    · split at h
      · obtain ⟨k₁, h₁, h⟩ := bind_eq_ok h
        rw [← (Prod.mk.inj (Except.ok.inj h)).1, (Packet.toHost_ok h₁).2]
        rfl
      · split at h
        · obtain ⟨k₁, h₁, h⟩ := bind_eq_ok h
          rw [← (Prod.mk.inj (Except.ok.inj h)).1, decodeAts_hdr h₁]
        · rw [← (Prod.mk.inj (Except.ok.inj h)).1]

/-- A bus access is checked before it is decoded. -/
theorem decodeBusaccess_safe (h : k.Exact k.hdr.len.toNat) : decodeBusaccess k ≠ .error .outside := by
  have hc : k.Covers (Hdr.size + k.hdr.len.toNat) := fun p hp hlt => (h p).2 ⟨hp, hlt⟩
  by_cases hlen : k.hdr.len.toNat < Busaccess.size - Hdr.size
  · rw [decodeBusaccess, if_pos hlen]
    exact fun he => by cases he
  · have h38 : Busaccess.size - Hdr.size = 38 := rfl
    have h20 : Hdr.size = 20 := rfl
    have h58 : Busaccess.size = 58 := rfl
    have hbase : k.Covers Busaccess.size := hc.mono (by omega)
    by_cases hattr : bswap (Busaccess.attributes.get k.mem) &&& attrExtBase = 0
    · obtain ⟨k', hk', -⟩ := decodeBusaccess_base (Nat.not_lt.1 hlen) hbase hattr
      rw [hk']
      exact fun he => by cases he
    · by_cases hext : k.hdr.len.toNat < Busaccess.sizeExt - Hdr.size
      · have hb := swapBase_covers hbase
        have hext' : (swapBase k).hdr.len.toNat < Busaccess.sizeExt - Hdr.size := hext
        rw [decodeBusaccess, if_neg hlen, baseToHost_eq (hbase.mono (by decide)), ok_bind, hb.read (by decide), ok_bind,
          hb.read (by decide), ok_bind, attributes_swapBase, if_pos hattr, if_pos hext']
        exact fun he => by cases he
      · have h80 : Busaccess.sizeExt = 80 := rfl
        obtain ⟨k', hk', -⟩ := decodeBusaccess_ext (Nat.not_lt.1 hext) (hc.mono (by omega)) hattr
        rw [hk']
        exact fun he => by cases he

end Straight

/-! ### The hello -/

section Hello

variable {k : Packet} {len : ℕ}

/-- The words from `i` up to `n` are looked at and lie in the payload. -/
def WordsIn (len offset : ℕ) (m : Image) (i n : ℕ) : Prop :=
  ∀ j, i ≤ j → j < n → j < capsLen (swapCaps offset m j) ∧ InPayload len (capField offset j)

theorem capField_size_pos {offset i : ℕ} : 0 < (capField offset i).size := Nat.zero_lt_succ 3

theorem capsLen_lt (m : Image) : capsLen m < 2 ^ 16 := BitVec.isLt _

/-- What the loop over the capabilities does from word `i` on: it ends at the first word that is not below
the number of words as it is then, with all words before it swapped, or at the first word outside. -/
theorem decodeCaps_cases {offset fuel i : ℕ} {m : Image} (h : k.Exact len) (hlen : 12 ≤ len) (hm : k.mem = swapCaps offset m i)
    (hfuel : 2 ^ 16 ≤ fuel + i) :
    (∃ n k', i ≤ n ∧ WordsIn len offset m i n ∧ capsLen (swapCaps offset m n) ≤ n ∧ decodeCaps offset fuel i k = .ok k' ∧
      k'.hdr = k.hdr ∧ k'.Exact len ∧ k'.mem = swapCaps offset m n) ∨
    (decodeCaps offset fuel i k = .error .outside ∧ ∃ n, i ≤ n ∧ WordsIn len offset m i n ∧ n < capsLen (swapCaps offset m n) ∧
      ¬ InPayload len (capField offset n)) := by
  have hfirst : WordsIn len offset m i i := fun j h₁ h₂ => absurd h₁ (Nat.not_le.2 h₂)
  induction fuel generalizing i k with
  | zero =>
    have hlt := capsLen_lt (swapCaps offset m i)
    exact .inl ⟨i, k, le_rfl, hfirst, by omega, rfl, rfl, h, hm⟩
  | succ fuel ih =>
    have hin : InPayload len Hello.capsLen := by
      show 20 ≤ 28 ∧ 30 ≤ 20 + len
      omega
    have hstep : decodeCaps offset (fuel + 1) i k = if i < capsLen (swapCaps offset m i) then
        (k.toHost (capField offset i) >>= fun k => decodeCaps offset fuel (i + 1) k) else .ok k := by
      simp only [decodeCaps]
      rw [h.read (by decide) hin, ok_bind, hm]
      rfl
    rw [hstep]
    by_cases hi : i < capsLen (swapCaps offset m i)
    · rw [if_pos hi]
      by_cases hw : InPayload len (capField offset i)
      · rw [h.toHost capField_size_pos hw, ok_bind]
        have hm' : (k.swap (capField offset i)).mem = swapCaps offset m (i + 1) := by
          rw [Packet.swap, Packet.mem_write, hm]
          rfl
        -- the words before, and this one
        have hwords : ∀ {n}, WordsIn len offset m (i + 1) n → WordsIn len offset m i n := by
          intro n hn j h₁ h₂
          rcases Nat.eq_or_lt_of_le h₁ with rfl | hlt
          · exact ⟨hi, hw⟩
          · exact hn j hlt h₂
        rcases ih (h.swap hw) hm' (by omega) (fun j h₁ h₂ => absurd h₁ (Nat.not_le.2 h₂)) with
          ⟨n, k', hn, hws, hstop, hdec, hhdr, hex, hmem⟩ | ⟨hdec, n, hn, hws, hlt, hout⟩
        · exact .inl ⟨n, k', by omega, hwords hws, hstop, hdec, hhdr, hex, hmem⟩
        · exact .inr ⟨hdec, n, by omega, hwords hws, hlt, hout⟩
      · rw [h.toHost_outside capField_size_pos hw, error_bind]
        exact .inr ⟨rfl, i, le_rfl, hfirst, hi, hw⟩
    · rw [if_neg hi]
      exact .inl ⟨i, k, le_rfl, hfirst, Nat.not_lt.1 hi, rfl, rfl, h, hm⟩

/-- The loop that adds capabilities looks at all of them. -/
theorem addCaps_safe_iff {offset : ℕ} (h : k.Exact len) (n i : ℕ) (peer : PeerCaps) :
    addCaps k offset n i peer ≠ .error .outside ↔ ∀ j, i ≤ j → j < i + n → InPayload len (capField offset j) := by
  induction n generalizing i peer with
  | zero =>
    refine iff_of_true (fun he => by cases he) fun j h₁ h₂ => ?_
    omega
  | succ n ih =>
    have hsteps : addCaps k offset (n + 1) i peer ≠ .error .outside ↔ InPayload len (capField offset i) ∧
        ∀ j, i + 1 ≤ j → j < i + 1 + n → InPayload len (capField offset j) :=
      safe_read_bind h capField_size_pos fun _ => ih (i + 1) _
    rw [hsteps]
    constructor
    · rintro ⟨hw, hws⟩ j h₁ h₂
      rcases Nat.eq_or_lt_of_le h₁ with rfl | hlt
      · exact hw
      · exact hws j hlt (by omega)
    · exact fun hws => ⟨hws i le_rfl (by omega), fun j h₁ h₂ => hws j (by omega) (by omega)⟩

/-- The hello processing looks at the capabilities when it comes to them. -/
theorem cmdHello_safe_iff (h : k.Exact len) (hlen : 12 ≤ len) (peer : PeerCaps) : cmdHello peer k ≠ .error .outside ↔
    (Hello.major.get k.mem = versionMajor ∧ peer.busaccessExtBase = false →
      ∀ j < capsLen k.mem, InPayload len (capField (capsOffset k.mem) j)) := by
  have hin : ∀ {w : ℕ} (f : Field w), 20 ≤ f.off ∧ f.stop ≤ 32 → InPayload len f := fun f hf => ⟨hf.1, by
    show f.stop ≤ 20 + len
    omega⟩
  rw [cmdHello, h.read (by decide) (hin _ (by decide)), ok_bind]
  by_cases hv : Hello.major.get k.mem = versionMajor
  · rw [if_neg (not_not.2 hv), h.read (by decide) (hin _ (by decide)), ok_bind]
    by_cases hl : Hello.capsLen.get k.mem = 0
    · rw [if_neg (not_not.2 hl)]
      have hz : capsLen k.mem = 0 := congrArg BitVec.toNat hl
      refine iff_of_true (fun he => by cases he) fun _ j hj => ?_
      omega
    · rw [if_pos hl, h.read (by decide) (hin _ (by decide)), ok_bind, processCaps]
      cases hp : peer.busaccessExtBase with
      | true =>
        rw [if_pos rfl]
        exact iff_of_true (fun he => by cases he) fun hc => by cases hc.2
      | false =>
        rw [if_neg Bool.false_ne_true, addCaps_safe_iff h]
        constructor
        · exact fun hws _ j hj => hws j (Nat.zero_le j) (by rw [Nat.zero_add]; exact hj)
        · exact fun hws j _ hj => hws ⟨hv, rfl⟩ j (by rwa [Nat.zero_add] at hj)
  · rw [if_pos hv]
    exact iff_of_true (fun he => by cases he) fun hc => absurd hc.1 hv

variable {peer : PeerCaps} {wire : Image}

/-- A hello that is long enough for its capabilities is decoded up to the loop over them. -/
theorem decodeHello_caps (hlen : 12 ≤ (decodeHdr wire).len.toNat) : ∃ k, k.hdr = decodeHdr wire ∧ k.Exact (decodeHdr wire).len.toNat ∧
    k.mem = helloImage wire ∧ decodeHello (receive wire) = decodeCaps (capsOffset (helloImage wire)) (2 ^ 16) 0 k := by
  have hex := receive_exact wire
  have hin : ∀ {w : ℕ} (f : Field w), 20 ≤ f.off ∧ f.stop ≤ 32 → InPayload (decodeHdr wire).len.toNat f := fun f hf => ⟨hf.1, by
    show f.stop ≤ 20 + _
    omega⟩
  have hex₁ := hex.swap (hin Hello.major (by decide))
  have hex₂ := hex₁.swap (hin Hello.minor (by decide))
  have hex₃ := hex₂.swap (hin Hello.capsOffset (by decide))
  have hex₄ := hex₃.swap (hin Hello.capsLen (by decide))
  have hmem : (((((receive wire).swap Hello.major).swap Hello.minor).swap Hello.capsOffset).swap Hello.capsLen).mem = helloImage wire := by
    simp (disch := decide) only [Packet.swap, Packet.mem_write, Field.get_put_of_apart, helloImage]
    rfl
  refine ⟨_, rfl, hex₄, hmem, ?_⟩
  have h₁ : ¬ (receive wire).hdr.len.toNat < 4 := by
    show ¬ (decodeHdr wire).len.toNat < 4
    omega
  have h₂ : 8 ≤ (((receive wire).swap Hello.major).swap Hello.minor).hdr.len.toNat - 4 := by
    show 8 ≤ (decodeHdr wire).len.toNat - 4
    omega
  rw [decodeHello, if_neg h₁, hex.toHost (by decide) (hin _ (by decide)), ok_bind, hex₁.toHost (by decide) (hin _ (by decide)), ok_bind,
    if_pos h₂, hex₂.toHost (by decide) (hin _ (by decide)), ok_bind, hex₃.toHost (by decide) (hin _ (by decide)), ok_bind,
    hex₄.read (by decide) (hin _ (by decide)), ok_bind, hmem]
  rfl

/-- A hello that was decoded is safe if its processing is. -/
theorem safe_of_decodeHello {k' : Packet} (hc : (decodeHdr wire).cmd = Cmd.hello) (hdec : decodeHello (receive wire) = .ok k')
    (hhdr : k'.hdr = decodeHdr wire) :
    Safe peer wire ↔ ((decodeHdr wire).flags &&& flagResponse = 0 → cmdHello peer k' ≠ .error .outside) := by
  have hcmd : (receive wire).hdr.cmd = Cmd.hello := hc
  rw [Safe, process, decodePayload, if_pos hcmd, hdec, ok_bind]
  show (if k'.hdr.flags &&& flagResponse = 0 ∧ k'.hdr.cmd = Cmd.hello then _ else _) ≠ _ ↔ _
  rw [hhdr]
  by_cases hf : (decodeHdr wire).flags &&& flagResponse = 0
  · rw [if_pos ⟨hf, hc⟩, forall_prop_of_true hf]
    exact safe_map _
  · rw [if_neg fun h => hf h.1]
    exact iff_of_true (fun he => by cases he) fun h => absurd h hf

theorem safe_iff_of_hello (hc : (decodeHdr wire).cmd = Cmd.hello) : Safe peer wire ↔
    (12 ≤ (decodeHdr wire).len.toNat → CapsFit (decodeHdr wire).len.toNat (HelloAccepted peer (decodeHdr wire)) (helloImage wire)) := by
  have hex := receive_exact wire
  have hcmd : (receive wire).hdr.cmd = Cmd.hello := hc
  by_cases h12 : 12 ≤ (decodeHdr wire).len.toNat
  · rw [forall_prop_of_true h12]
    obtain ⟨k, hhdr, hexk, hmem, hdec⟩ := decodeHello_caps h12
    rcases decodeCaps_cases (m := helloImage wire) (i := 0) hexk h12 hmem (Nat.le_add_right (2 ^ 16) 0) with
      ⟨n, k', -, hws, hstop, hcaps, hhdr', hex', hmem'⟩ | ⟨hcaps, n, -, hws, hlt, hout⟩
    · rw [safe_of_decodeHello hc (hdec.trans hcaps) (hhdr'.trans hhdr), cmdHello_safe_iff hex' h12, hmem']
      constructor
      · exact fun h => ⟨n, fun j hj => hws j (Nat.zero_le j) hj, hstop, fun hacc => h hacc.1 hacc.2⟩
      · rintro ⟨n', hws', hstop', hacc⟩ hf hv
        -- the loop ends where the condition says
        have hn : n' = n := by
          rcases Nat.lt_trichotomy n' n with hlt | heq | hlt
          · have := (hws n' (Nat.zero_le n') hlt).1
            omega
          · exact heq
          · have := (hws' n hlt).1
            omega
        subst hn
        exact hacc ⟨hf, hv⟩
    · refine iff_of_false (fun hs => ?_) ?_
      · rw [Safe, process, decodePayload, if_pos hcmd, hdec.trans hcaps] at hs
        exact hs rfl
      · rintro ⟨n', hws', hstop', -⟩
        rcases Nat.lt_trichotomy n' n with hlt' | heq | hlt'
        · have := (hws n' (Nat.zero_le n') hlt').1
          omega
        · subst heq
          omega
        · exact hout (hws' n hlt').2
  · refine iff_of_true ?_ fun h => absurd h h12
    by_cases h4 : (decodeHdr wire).len.toNat < 4
    · have hrej : decodeHello (receive wire) = .error .rejected := if_pos h4
      rw [Safe, process, decodePayload, if_pos hcmd, hrej]
      exact fun he => by cases he
    · -- the version alone: the decoder sets the capabilities itself
      have hin : ∀ {w : ℕ} (f : Field w), 20 ≤ f.off ∧ f.stop ≤ 24 → InPayload (decodeHdr wire).len.toNat f := fun f hf => ⟨hf.1, by
        show f.stop ≤ 20 + _
        omega⟩
      have hex₁ := hex.swap (hin Hello.major (by decide))
      have hex₂ := hex₁.swap (hin Hello.minor (by decide))
      set k := ((receive wire).swap Hello.major).swap Hello.minor with hk
      have hdec : decodeHello (receive wire) = .ok ((k.write Hello.capsOffset 0).write Hello.capsLen 0) := by
        have h8 : ¬ 8 ≤ k.hdr.len.toNat - 4 := by
          show ¬ 8 ≤ (decodeHdr wire).len.toNat - 4
          omega
        rw [decodeHello, if_neg (show ¬ (receive wire).hdr.len.toNat < 4 from h4), hex.toHost (by decide) (hin _ (by decide)), ok_bind, hex₁.toHost (by decide) (hin _ (by decide)),
          ok_bind, ← hk, if_neg h8]
        rfl
      rw [safe_of_decodeHello hc hdec rfl]
      intro _
      have hmaj : ((k.write Hello.capsOffset 0).write Hello.capsLen 0).Has Hello.major :=
        ((Packet.Exact.has_iff hex₂ (by decide)).2 (hin _ (by decide))).write _ |>.write _
      rw [cmdHello, Packet.read_eq hmaj, ok_bind]
      split
      · exact fun he => by cases he
      · rw [Packet.read_eq (Packet.has_write_self _), ok_bind, Packet.mem_write, Field.get_put, if_neg (fun h => h rfl)]
        exact fun he => by cases he

end Hello

/-! ### All packets -/

section All

variable {peer : PeerCaps} {wire : Image}

theorem safe_iff_of_not_hello (hc : (decodeHdr wire).cmd ≠ Cmd.hello) : Safe peer wire ↔ decodePayload (receive wire) ≠ .error .outside := by
  have hcmd : (receive wire).hdr.cmd ≠ Cmd.hello := hc
  rw [Safe, process]
  cases hd : decodePayload (receive wire) with
  | error e => simp
  | ok r =>
    obtain ⟨k, used⟩ := r
    have hhdr := decodePayload_hdr hcmd hd
    rw [ok_bind]
    dsimp only
    rw [if_neg fun h => hcmd (by rw [← h.2, hhdr])]
    exact iff_of_true (fun he => by cases he) fun he => by cases he

/-- A hello of twelve payload bytes that says that there is one capability, 4096 bytes away. -/
def farHello : Image := fun p =>
  if p = 3 then 1 else if p = 7 then 12 else if p = 21 then 4 else if p = 23 then 3 else if p = 26 then 0x10 else if p = 29 then 1 else 0

end All

end LibSystemCTLM.RemotePort
