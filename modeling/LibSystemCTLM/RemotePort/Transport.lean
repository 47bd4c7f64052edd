import LibSystemCTLM.RemotePort.RoundTrip
import LibSystemCTLM.RemotePort.Memory

/-!
# Transactions over the remote port, from end to end

What the transaction that the master issues has of the one that the slave was given. A packet that
is sent is received as what was encoded (`decode_sent`). From that, exactly when the attributes of
a transaction arrive (`attributesArrive_iff`): the master id has to fit in 16 bits, and an access
to the I/O space is never told to be one. And exactly when the transaction itself arrives
(`arrives_iff`): the master takes whatever follows the packet for data, so that the byte enables of
a write, which follow its data, are written behind it, and every byte is enabled.
-/

namespace LibSystemCTLM.RemotePort

open Foundation

/-! ### What is sent is received -/

namespace EncodeBusaccessIn

variable (a : EncodeBusaccessIn) (peer : PeerCaps)

/-- `hdr.len` of the encoded packet. -/
def hdrLen : BitVec 32 :=
  if a.extended peer then BitVec.ofNat 32 (Busaccess.sizeExt - Hdr.size) + (a.hsize + a.byteEnableLen)
  else BitVec.ofNat 32 (Busaccess.size - Hdr.size) + a.hsize

/-- The packet can be encoded: the old layout has only room for a small master id. -/
def Encodable : Prop := a.extended peer = true ∨ a.masterId < uint16Max

/-- The length in the header covers at least the packet itself, so that it is decoded. -/
def Received : Prop := a.headerSize peer ≤ (a.hdrLen peer).toNat + Hdr.size

end EncodeBusaccessIn

section Sent

variable {peer : PeerCaps} {a : EncodeBusaccessIn} {m₀ m : Image} {n : ℕ}

theorem encodeCommon_of_le (len : BitVec 32) (attr : BitVec 64) (m : Image) {p : ℕ} (h : Busaccess.size ≤ p) :
    encodeCommon a len attr m p = m p := by
  have hout : ∀ {w : ℕ} (f : Field w) (x : BitVec w) (m : Image), f.stop ≤ Busaccess.size → f.put x m p = m p := fun f x m hf =>
    f.put_of_outside x m (.inr (le_trans hf h))
  simp only [encodeCommon, encodeBusaccessCommon, encodeHdr, putNet]
  repeat rw [hout _ _ _ (by decide)]

theorem encodeExt_of_le (m : Image) {p : ℕ} (h : Busaccess.sizeExt ≤ p) : encodeExt a m p = m p := by
  have hout : ∀ {w : ℕ} (f : Field w) (x : BitVec w) (m : Image), f.stop ≤ Busaccess.sizeExt → f.put x m p = m p := fun f x m hf =>
    f.put_of_outside x m (.inr (le_trans hf h))
  simp only [encodeExt, putNet]
  repeat rw [hout _ _ _ (by decide)]

theorem encodeBusaccess_eq_some (h : encodeBusaccess peer a m₀ = some (m, n)) :
    EncodedBusaccess a (a.hdrLen peer) (a.sentAttr peer) m ∧ n = a.headerSize peer + a.retSize.toNat ∧ a.Encodable peer ∧
      ∀ p, a.headerSize peer ≤ p → m p = m₀ p := by
  cases he : a.extended peer with
  | true =>
    rw [encodeBusaccess_new he] at h
    obtain ⟨rfl, rfl⟩ := Prod.mk.inj (Option.some.inj h)
    rw [EncodeBusaccessIn.hdrLen, EncodeBusaccessIn.sentAttr, EncodeBusaccessIn.headerSize, he]
    exact ⟨encodedBusaccess_encodeCommon .., rfl, .inl he, fun p hp => by
      rw [encodeCommon_of_le _ _ _ (le_trans (by decide) hp), encodeExt_of_le _ hp]⟩
  | false =>
    have hm : a.masterId < uint16Max := by
      by_contra hm
      rw [encodeBusaccess, if_pos he, if_neg hm] at h
      cases h
    rw [encodeBusaccess_old he hm] at h
    obtain ⟨rfl, rfl⟩ := Prod.mk.inj (Option.some.inj h)
    rw [EncodeBusaccessIn.hdrLen, EncodeBusaccessIn.sentAttr, EncodeBusaccessIn.headerSize, he]
    exact ⟨encodedBusaccess_encodeCommon .., rfl, .inr hm, fun p hp => encodeCommon_of_le _ _ _ hp⟩

theorem exists_encodeBusaccess (m₀ : Image) (h : a.Encodable peer) : ∃ m n, encodeBusaccess peer a m₀ = some (m, n) := by
  cases he : a.extended peer with
  | true => exact ⟨_, _, encodeBusaccess_new he⟩
  | false =>
    rcases h with h | h
    · rw [he] at h
      cases h
    · exact ⟨_, _, encodeBusaccess_old he h⟩

/-- A received packet has what was encoded, and behind it what was sent behind it. -/
structure HostOf (peer : PeerCaps) (a : EncodeBusaccessIn) (data be : Image) (k : Packet) : Prop where
  hdr : k.hdr = { cmd := a.cmd, len := a.hdrLen peer, id := a.id, flags := a.flags, dev := a.dev }
  attributes : Busaccess.attributes.get k.mem = a.sentAttr peer
  addr : Busaccess.addr.get k.mem = a.addr
  len : Busaccess.len.get k.mem = a.size
  width : Busaccess.width.get k.mem = a.width
  streamWidth : Busaccess.streamWidth.get k.mem = a.streamWidth
  masterId : Busaccess.masterId.get k.mem = a.masterId.setWidth 16
  data : ∀ i < a.dataLen, k.mem (a.headerSize peer + i) = data i
  byteEn : ∀ i, k.mem (a.headerSize peer + a.dataLen + i) = be i

variable {data be : Image}

theorem size_le_headerSize (peer : PeerCaps) (a : EncodeBusaccessIn) : Busaccess.size ≤ a.headerSize peer := by
  unfold EncodeBusaccessIn.headerSize
  split <;> decide

theorem sentAttr_ext (peer : PeerCaps) (a : EncodeBusaccessIn) : a.sentAttr peer &&& attrExtBase = 0 ↔ a.extended peer = false := by
  unfold EncodeBusaccessIn.sentAttr
  cases he : a.extended peer with
  | true => exact iff_of_false (and_attrExtBase_of_or _) fun h => by cases h
  | false =>
    simp only [EncodeBusaccessIn.extended, Bool.or_eq_false_iff, decide_eq_false_iff_not, not_not] at he
    exact iff_of_true he.2 rfl

theorem hostOf_of_busaccessHost {k : Packet} (hm : EncodedBusaccess a (a.hdrLen peer) (a.sentAttr peer) m)
    (hk : BusaccessHost (a.headerSize peer) (receive (wireImage (a.headerSize peer) a.dataLen m data be)) k) : HostOf peer a data be k := by
  have hsize := size_le_headerSize peer a
  have hget : ∀ {w : ℕ} (f : Field w), f.stop ≤ Busaccess.size →
      f.get (receive (wireImage (a.headerSize peer) a.dataLen m data be)).mem = f.get m :=
    fun f hf => get_wireImage (le_trans hf hsize)
  constructor
  case hdr => exact hk.hdr.trans ((decodeHdr_wireImage (le_trans (by decide) hsize)).trans hm.hdr)
  case attributes => rw [hk.attributes, hget _ (by decide), hm.attributes]
  case addr => rw [hk.addr, hget _ (by decide), hm.addr]
  case len => rw [hk.len, hget _ (by decide), hm.len]
  case width => rw [hk.width, hget _ (by decide), hm.width]
  case streamWidth => rw [hk.streamWidth, hget _ (by decide), hm.streamWidth]
  case masterId => rw [hk.masterId, hget _ (by decide), hm.masterId]
  case data =>
    intro i hi
    rw [hk.rest _ (Nat.le_add_right ..)]
    exact wireImage_data hi
  case byteEn =>
    intro i
    rw [hk.rest _ (by omega)]
    exact wireImage_byteEn

/-- **What is sent is received**, if the length in the header allows it. -/
theorem decode_sent (data be : Image) (hcmd : a.cmd = Cmd.read ∨ a.cmd = Cmd.write) (hm : EncodedBusaccess a (a.hdrLen peer) (a.sentAttr peer) m) :
    (a.Received peer → ∃ k used, decodePayload (receive (wireImage (a.headerSize peer) a.dataLen m data be)) = .ok (k, used)) ∧
      ∀ k used, decodePayload (receive (wireImage (a.headerSize peer) a.dataLen m data be)) = .ok (k, used) →
        a.Received peer ∧ used + Hdr.size = a.headerSize peer ∧ HostOf peer a data be k := by
  have hsize := size_le_headerSize peer a
  have hhdr : (receive (wireImage (a.headerSize peer) a.dataLen m data be)).hdr = _ :=
    (decodeHdr_wireImage (le_trans (by decide) hsize)).trans hm.hdr
  have hattr : bswap (Busaccess.attributes.get (receive (wireImage (a.headerSize peer) a.dataLen m data be)).mem) = a.sentAttr peer := by
    rw [← hm.attributes]
    exact congrArg bswap (get_wireImage (le_trans (by decide) hsize))
  have hdec : decodePayload (receive (wireImage (a.headerSize peer) a.dataLen m data be)) = decodeBusaccess _ :=
    decodePayload_busaccess (by rw [hhdr]; exact hcmd)
  rw [hdec]
  have hcov : ∀ {n : ℕ}, n ≤ Hdr.size + (receive (wireImage (a.headerSize peer) a.dataLen m data be)).hdr.len.toNat →
      (receive (wireImage (a.headerSize peer) a.dataLen m data be)).Covers n := receive_covers
  have hhost : ∀ k, BusaccessHost (a.headerSize peer) (receive (wireImage (a.headerSize peer) a.dataLen m data be)) k →
      HostOf peer a data be k := fun k => hostOf_of_busaccessHost hm
  generalize receive (wireImage (a.headerSize peer) a.dataLen m data be) = k₀ at hhdr hattr hcov hhost ⊢
  constructor
  · intro hr
    have hlen : a.headerSize peer ≤ Hdr.size + k₀.hdr.len.toNat := by
      rw [hhdr, Nat.add_comm]
      exact hr
    have hc := hcov hlen
    have h20 : Hdr.size = 20 := rfl
    cases he : a.extended peer with
    | true =>
      have hs : a.headerSize peer = Busaccess.sizeExt := by rw [EncodeBusaccessIn.headerSize, he]; rfl
      rw [hs] at hc hlen
      obtain ⟨k, hk, -⟩ := decodeBusaccess_ext (by omega) hc (by
        rw [hattr, Ne, sentAttr_ext, he]
        exact fun h => by cases h)
      exact ⟨k, _, hk⟩
    | false =>
      have hs : a.headerSize peer = Busaccess.size := by rw [EncodeBusaccessIn.headerSize, he]; rfl
      rw [hs] at hc hlen
      obtain ⟨k, hk, -⟩ := decodeBusaccess_base (by omega) hc (by rw [hattr, sentAttr_ext, he])
      exact ⟨k, _, hk⟩
  · intro k used hk
    obtain ⟨hbus, hle, hused⟩ := decodeBusaccess_ok hk
    rw [hattr] at hused
    have hs : used + Hdr.size = a.headerSize peer := by
      rw [hused, EncodeBusaccessIn.headerSize]
      cases he : a.extended peer with
      | true => rw [if_neg (by rw [sentAttr_ext, he]; exact fun h => by cases h)]; rfl
      | false => rw [if_pos (by rw [sentAttr_ext, he])]; rfl
    rw [hhdr] at hle
    rw [hs] at hbus
    refine ⟨?_, hs, hhost k hbus⟩
    rw [EncodeBusaccessIn.Received, ← hs]
    exact Nat.add_le_add_right hle _

end Sent

/-! ### The request -/

/-- The slave can send the transaction, and the master decodes it: byte enables need a peer that knows them,
the old layout needs a small master id, and the length in the header must not wrap below the packet's own. -/
def Accepted (peer : PeerCaps) (a : EncodeBusaccessIn) : Prop :=
  (a.byteEnableLen = 0 ∨ peer.busaccessExtByteEn = true) ∧ a.Encodable peer ∧ a.Received peer

section Request

variable {peer : PeerCaps} {id dev : BitVec 32} {clk : BitVec 64} {m₀ wire : Image} {p q : Payload}

theorem flags_busaccessIn : (busaccessIn id dev clk p).flags &&& flagResponse = 0 := by
  unfold busaccessIn
  dsimp only
  split <;> decide

theorem carriesData_busaccessIn : (busaccessIn id dev clk p).carriesData = decide (p.command = .write) := by
  rw [EncodeBusaccessIn.carriesData, flags_busaccessIn]
  unfold busaccessIn
  cases p.command <;> rfl

theorem hsize_busaccessIn : (busaccessIn id dev clk p).hsize = if p.command = .write then p.dataLength else 0 := by
  simp only [EncodeBusaccessIn.hsize, carriesData_busaccessIn, decide_eq_true_eq]
  rfl

theorem dataLen_busaccessIn : (busaccessIn id dev clk p).dataLen = if p.command = .write then p.dataLength.toNat else 0 := by
  rw [EncodeBusaccessIn.dataLen, hsize_busaccessIn]
  split <;> rfl

theorem retSize_busaccessIn : (busaccessIn id dev clk p).retSize = 0 := by
  rw [EncodeBusaccessIn.retSize, if_neg fun h => h.2 flags_busaccessIn]

theorem cmd_busaccessIn : (busaccessIn id dev clk p).cmd = Cmd.read ∨ (busaccessIn id dev clk p).cmd = Cmd.write := by
  unfold busaccessIn
  cases p.command
  · exact .inl rfl
  · exact .inr rfl

theorem slaveSend_eq_some (h : slaveSend peer id dev clk m₀ p = some wire) :
    (p.byteEnableLength = 0 ∨ peer.busaccessExtByteEn = true) ∧ (busaccessIn id dev clk p).Encodable peer ∧
      ∃ m, EncodedBusaccess (busaccessIn id dev clk p) ((busaccessIn id dev clk p).hdrLen peer) ((busaccessIn id dev clk p).sentAttr peer) m ∧
        wire = wireImage ((busaccessIn id dev clk p).headerSize peer) (busaccessIn id dev clk p).dataLen m p.data p.byteEnable := by
  unfold slaveSend at h
  split at h
  · cases h
  · rename_i hbe
    obtain ⟨⟨m, n⟩, henc, rfl⟩ := Option.map_eq_some_iff.1 h
    obtain ⟨hm, hn, hable, -⟩ := encodeBusaccess_eq_some henc
    rw [retSize_busaccessIn] at hn
    refine ⟨?_, hable, m, hm, ?_⟩
    · by_contra hc
      exact hbe (by simpa using hc)
    · rw [hn, dataLen_busaccessIn]
      rfl

theorem exists_slaveSend (m₀ : Image) (hbe : p.byteEnableLength = 0 ∨ peer.busaccessExtByteEn = true) (h : (busaccessIn id dev clk p).Encodable peer) :
    ∃ wire, slaveSend peer id dev clk m₀ p = some wire := by
  obtain ⟨m, n, henc⟩ := exists_encodeBusaccess m₀ h
  have hno : ¬ (p.byteEnableLength ≠ 0 ∧ peer.busaccessExtByteEn = false) := by
    rintro ⟨h₁, h₂⟩
    rcases hbe with hbe | hbe
    · exact h₁ hbe
    · rw [hbe] at h₂
      cases h₂
  exact ⟨_, by rw [slaveSend, if_neg hno, henc]; rfl⟩

/-- The transaction that the master makes of a packet that came from the slave. -/
def issued (peer : PeerCaps) (a : EncodeBusaccessIn) (k : Packet) : Payload where
  command := if a.cmd = Cmd.write then .write else .read
  address := a.addr
  data := if a.cmd = Cmd.write then fun i => k.mem (a.headerSize peer + i) else fun _ => 0
  dataLength := if a.cmd = Cmd.write then a.hdrLen peer - BitVec.ofNat 32 (a.headerSize peer - Hdr.size) else a.size
  byteEnable := fun _ => 0
  byteEnableLength := 0
  streamingWidth := a.streamWidth
  genattr := {
    masterId := (a.masterId.setWidth 16).setWidth 64
    secure := decide (a.sentAttr peer &&& attrSecure ≠ 0)
    eop := decide (a.sentAttr peer &&& attrEop ≠ 0)
    posted := decide (a.flags &&& flagPosted ≠ 0)
    ioAccess := decide (a.sentAttr peer &&& attrIOAccess ≠ 0) }
  physAddr := false

theorem masterIssue_of_decode {data be : Image} {a : EncodeBusaccessIn} {k : Packet} {used : ℕ} (hw : a.width = 0)
    (hdec : decodePayload (receive wire) = .ok (k, used)) (hused : used + Hdr.size = a.headerSize peer) (hk : HostOf peer a data be k) :
    masterIssue wire = some (issued peer a k) := by
  have hw' : Busaccess.width.get k.mem = 0 := hk.width.trans hw
  have hus : used = a.headerSize peer - Hdr.size := by omega
  have hptr : ∀ i, Hdr.size + (a.headerSize peer - Hdr.size) + i = a.headerSize peer + i := fun i => by omega
  rw [masterIssue, hdec]
  dsimp only
  simp only [rpBusAccess, if_pos hw', hk.addr, hk.streamWidth, hk.masterId, hk.attributes, hk.len, hk.hdr, hus, hptr]
  split
  · rename_i hc
    simp only [issued, if_pos hc]
  · rename_i hc
    simp only [issued, if_neg hc]

/-- The master issues a transaction exactly when the slave's packet is accepted. -/
theorem masterIssue_slaveSend (hs : slaveSend peer id dev clk m₀ p = some wire) (hi : masterIssue wire = some q) :
    Accepted peer (busaccessIn id dev clk p) ∧ ∃ k, (∃ used, decodePayload (receive wire) = .ok (k, used)) ∧
      HostOf peer (busaccessIn id dev clk p) p.data p.byteEnable k ∧ q = issued peer (busaccessIn id dev clk p) k := by
  obtain ⟨hbe, hable, m, hm, rfl⟩ := slaveSend_eq_some hs
  have hsent := (decode_sent p.data p.byteEnable cmd_busaccessIn hm).2
  cases hd : decodePayload (receive (wireImage ((busaccessIn id dev clk p).headerSize peer) (busaccessIn id dev clk p).dataLen m p.data
    p.byteEnable)) with
  | error e =>
    rw [masterIssue, hd] at hi
    cases hi
  | ok r =>
    obtain ⟨k, used⟩ := r
    obtain ⟨hr, hused, hk⟩ := hsent k used hd
    have hiss := masterIssue_of_decode rfl hd hused hk
    rw [hiss] at hi
    exact ⟨⟨hbe, hable, hr⟩, k, ⟨used, rfl⟩, hk, (Option.some.inj hi).symm⟩

theorem exists_masterIssue (m₀ : Image) (h : Accepted peer (busaccessIn id dev clk p)) : ∃ wire k, slaveSend peer id dev clk m₀ p = some wire ∧
    (∃ used, decodePayload (receive wire) = .ok (k, used)) ∧ HostOf peer (busaccessIn id dev clk p) p.data p.byteEnable k ∧ masterIssue wire = some (issued peer (busaccessIn id dev clk p) k) := by
  obtain ⟨hbe, hable, hr⟩ := h
  obtain ⟨wire, hs⟩ := exists_slaveSend m₀ hbe hable
  obtain ⟨-, -, m, hm, rfl⟩ := slaveSend_eq_some hs
  have hsent := decode_sent p.data p.byteEnable cmd_busaccessIn hm
  obtain ⟨k, used, hd⟩ := hsent.1 hr
  obtain ⟨-, hused, hk⟩ := hsent.2 k used hd
  exact ⟨_, k, hs, ⟨used, hd⟩, hk, masterIssue_of_decode rfl hd hused hk⟩

end Request

/-! ### The attributes -/

/-- The transaction that the master issues has the generic attributes of the one the slave was given. -/
def AttributesArrive (peer : PeerCaps) (id dev : BitVec 32) (clk : BitVec 64) (m₀ : Image) (p : Payload) : Prop :=
  ∃ wire q, slaveSend peer id dev clk m₀ p = some wire ∧ masterIssue wire = some q ∧ q.genattr = p.genattr

section Attributes

variable {peer : PeerCaps} {id dev : BitVec 32} {clk : BitVec 64} {m₀ : Image} {p : Payload}

/-- The attributes but for the I/O flag and the high part of the master id arrive. -/
theorem genattr_issued (peer : PeerCaps) (id dev : BitVec 32) (clk : BitVec 64) (p : Payload) (k : Packet) :
    (issued peer (busaccessIn id dev clk p) k).genattr =
      { p.genattr with masterId := (p.genattr.masterId.setWidth 16).setWidth 64, ioAccess := false } := by
  have hflags : decide ((busaccessIn id dev clk p).flags &&& flagPosted ≠ 0) = p.genattr.posted := by
    show decide ((if p.genattr.posted then flagPosted else 0) &&& flagPosted ≠ 0) = _
    cases p.genattr.posted <;> decide
  have hattr : ∀ x : BitVec 64, x = genattrToRpattr p.genattr ||| (if p.physAddr then attrPhysAddr else 0) ∨
      x = (genattrToRpattr p.genattr ||| if p.physAddr then attrPhysAddr else 0) ||| attrExtBase →
      decide (x &&& attrSecure ≠ 0) = p.genattr.secure ∧ decide (x &&& attrEop ≠ 0) = p.genattr.eop ∧
        decide (x &&& attrIOAccess ≠ 0) = false := by
    unfold genattrToRpattr
    cases p.genattr.secure <;> cases p.genattr.eop <;> cases p.physAddr <;> rintro x (rfl | rfl) <;> decide
  have hsent : (busaccessIn id dev clk p).sentAttr peer = genattrToRpattr p.genattr ||| (if p.physAddr then attrPhysAddr else 0) ∨
      (busaccessIn id dev clk p).sentAttr peer = (genattrToRpattr p.genattr ||| if p.physAddr then attrPhysAddr else 0) ||| attrExtBase := by
    unfold EncodeBusaccessIn.sentAttr
    split
    · exact .inr rfl
    · exact .inl rfl
  obtain ⟨hs, he, hio⟩ := hattr _ hsent
  have hid : (((busaccessIn id dev clk p).masterId).setWidth 16).setWidth 64 = (p.genattr.masterId.setWidth 16).setWidth 64 := by
    have hback : ((p.genattr.masterId.setWidth 16).setWidth 64).setWidth 16 = p.genattr.masterId.setWidth 16 := by
      rw [BitVec.setWidth_setWidth_of_le _ (by decide), BitVec.setWidth_eq]
    exact congrArg (BitVec.setWidth 64) hback
  simp only [issued, hflags, hs, he, hio, hid]

/-- **The attributes arrive exactly when** the transaction is accepted, its master id has at most 16 bits, and
it is no access to the I/O space. -/
theorem attributesArrive_iff (peer : PeerCaps) (id dev : BitVec 32) (clk : BitVec 64) (m₀ : Image) (p : Payload) :
    AttributesArrive peer id dev clk m₀ p ↔
      Accepted peer (busaccessIn id dev clk p) ∧ p.genattr.masterId.toNat < 2 ^ 16 ∧ p.genattr.ioAccess = false := by
  have hlow : (p.genattr.masterId.setWidth 16).setWidth 64 = p.genattr.masterId ↔ p.genattr.masterId.toNat < 2 ^ 16 := by
    rw [← BitVec.toNat_inj, BitVec.toNat_setWidth, BitVec.toNat_setWidth]
    have hlt := p.genattr.masterId.isLt
    omega
  constructor
  · rintro ⟨wire, q, hs, hi, hg⟩
    obtain ⟨hacc, k, -, -, rfl⟩ := masterIssue_slaveSend hs hi
    rw [genattr_issued] at hg
    exact ⟨hacc, hlow.1 (congrArg Genattr.masterId hg), (congrArg Genattr.ioAccess hg).symm⟩
  · rintro ⟨hacc, hid, hio⟩
    obtain ⟨wire, k, hs, -, -, hi⟩ := exists_masterIssue m₀ hacc
    refine ⟨wire, _, hs, hi, ?_⟩
    rw [genattr_issued, hlow.2 hid, ← hio]

end Attributes

/-- A secure write of four bytes. -/
def secureWrite (masterId : BitVec 64) (ioAccess : Bool) : Payload where
  command := .write
  address := 0x1000
  data := fun _ => 0xa5
  dataLength := 4
  byteEnable := fun _ => 0
  byteEnableLength := 0
  streamingWidth := 4
  genattr := { masterId, secure := true, eop := true, posted := false, ioAccess }
  physAddr := false

/-- **Attributes are lost**: the I/O flag, and the high part of a master id. -/
theorem not_attributesArrive : ¬ AttributesArrive { busaccessExtBase := true } 0 0 0 (fun _ => 0) (secureWrite 1 true) ∧
    ¬ AttributesArrive { busaccessExtBase := true } 0 0 0 (fun _ => 0) (secureWrite 0x10001 false) := by
  constructor
  · rintro ⟨wire, q, hs, hi, hg⟩
    obtain ⟨-, k, -, -, rfl⟩ := masterIssue_slaveSend hs hi
    rw [genattr_issued] at hg
    cases congrArg Genattr.ioAccess hg
  · rintro ⟨wire, q, hs, hi, hg⟩
    obtain ⟨-, k, -, -, rfl⟩ := masterIssue_slaveSend hs hi
    rw [genattr_issued] at hg
    exact absurd (congrArg Genattr.masterId hg) (by decide)

/-! ### The transaction -/

/-- A write arrives: the master issues a write to the address, with the data and its length, that disables the
bytes that the original disabled. -/
def WriteArrives (peer : PeerCaps) (id dev : BitVec 32) (clk : BitVec 64) (m₀ : Image) (p : Payload) : Prop :=
  ∃ wire q, slaveSend peer id dev clk m₀ p = some wire ∧ masterIssue wire = some q ∧ q.command = .write ∧ q.address = p.address ∧
    q.dataLength = p.dataLength ∧ (∀ i < p.dataLength.toNat, q.data i = p.data i) ∧ ∀ i < p.dataLength.toNat, q.enabled i = p.enabled i

section Write

variable {peer : PeerCaps} {id dev : BitVec 32} {clk : BitVec 64} {m₀ : Image} {p : Payload}

theorem cmd_of_write (hw : p.command = .write) : (busaccessIn id dev clk p).cmd = Cmd.write := by
  show (if p.command = .read then Cmd.read else Cmd.write) = _
  rw [hw]
  rfl

/-- All that follows the packet is data for the master: in the new layout, the byte enables as well. -/
theorem dataLength_issued (hw : p.command = .write) (k : Packet) : (issued peer (busaccessIn id dev clk p) k).dataLength =
    if (busaccessIn id dev clk p).extended peer then p.dataLength + p.byteEnableLength else p.dataLength := by
  have hsize : (busaccessIn id dev clk p).hsize = p.dataLength := by rw [hsize_busaccessIn, if_pos hw]
  show (if (busaccessIn id dev clk p).cmd = Cmd.write then _ else _) = _
  rw [if_pos (cmd_of_write hw), EncodeBusaccessIn.hdrLen, EncodeBusaccessIn.headerSize, hsize]
  have hcancel : ∀ x y : BitVec 32, x + y - x = y := fun x y => by rw [BitVec.add_comm, BitVec.add_sub_cancel]
  split
  · exact hcancel _ _
  · exact hcancel _ _

/-- **A write arrives exactly when** it is accepted and the new layout carries no byte enables, or the old one,
in which they are lost, disables nothing. -/
theorem writeArrives_iff (hw : p.command = .write) : WriteArrives peer id dev clk m₀ p ↔ Accepted peer (busaccessIn id dev clk p) ∧
    ((busaccessIn id dev clk p).extended peer = true → p.byteEnableLength = 0) ∧ ∀ i < p.dataLength.toNat, p.enabled i = true := by
  constructor
  · rintro ⟨wire, q, hs, hi, -, -, hlen, -, hen⟩
    obtain ⟨hacc, k, -, -, rfl⟩ := masterIssue_slaveSend hs hi
    refine ⟨hacc, fun hext => ?_, fun i hlt => (hen i hlt).symm⟩
    rw [dataLength_issued hw, if_pos hext] at hlen
    simpa using hlen
  · rintro ⟨hacc, hbe, hen⟩
    obtain ⟨wire, k, hs, -, hk, hi⟩ := exists_masterIssue m₀ hacc
    refine ⟨wire, _, hs, hi, by simp [issued, cmd_of_write hw], rfl, ?_, fun i hlt => ?_, fun i hlt => (hen i hlt).symm⟩
    · rw [dataLength_issued hw]
      split
      · rename_i hext
        simp [hbe hext]
      · rfl
    · simp only [issued, if_pos (cmd_of_write hw)]
      exact hk.data i (by rw [dataLen_busaccessIn, if_pos hw]; exact hlt)

end Write

/-- A read arrives: the master issues a read of the address and the length, and what the target answers is found
in the initiator's buffer, where it is enabled. -/
def ReadArrives (peer peer' : PeerCaps) (id dev : BitVec 32) (clk clk' : BitVec 64) (target : Payload → Image × Response)
    (m₀ m₁ : Image) (p : Payload) : Prop :=
  ∃ wire q r, slaveSend peer id dev clk m₀ p = some wire ∧ masterIssue wire = some q ∧ q.command = .read ∧ q.address = p.address ∧
    q.dataLength = p.dataLength ∧ readResult peer peer' id dev clk clk' target m₀ m₁ p = some r ∧
    ∀ i < p.dataLength.toNat, r i = if p.enabled i then (target q).1 i else p.data i

/-- The answer to a read can be encoded, and the length in its header does not wrap. -/
def AnswerFits (peer : PeerCaps) (p : Payload) : Prop :=
  (peer.busaccessExtBase = true ∨ (p.genattr.masterId.setWidth 16).setWidth 64 < uint16Max) ∧
    busaccessTxDataptr peer - Hdr.size + p.dataLength.toNat < 2 ^ 32

section Read

variable {peer peer' : PeerCaps} {id dev : BitVec 32} {clk clk' : BitVec 64} {target : Payload → Image × Response} {m₀ m₁ wire : Image}
  {p q : Payload} {k : Packet} {resp : Response}

/-- What the packet of a read has, for the answer. -/
structure ReadPacket (p : Payload) (k : Packet) : Prop where
  cmd : k.hdr.cmd = Cmd.read
  len : Busaccess.len.get k.mem = p.dataLength
  masterId : (Busaccess.masterId.get k.mem).setWidth 64 = (p.genattr.masterId.setWidth 16).setWidth 64

theorem ReadPacket.of_hostOf (hr : p.command = .read) (hk : HostOf peer (busaccessIn id dev clk p) p.data p.byteEnable k) : ReadPacket p k where
  cmd := by
    rw [hk.hdr]
    show (if p.command = .read then Cmd.read else Cmd.write) = _
    rw [if_pos hr]
  len := hk.len
  masterId := by
    have hback : ((p.genattr.masterId.setWidth 16).setWidth 64).setWidth 16 = p.genattr.masterId.setWidth 16 := by
      rw [BitVec.setWidth_setWidth_of_le _ (by decide), BitVec.setWidth_eq]
    rw [hk.masterId]
    exact congrArg (BitVec.setWidth 64) hback

theorem or_flagResponse (x : BitVec 32) : (x ||| flagResponse) &&& flagResponse ≠ 0 := by
  intro h
  have hbit := congrArg (fun y : BitVec 32 => y.getLsbD 1) h
  simp [flagResponse] at hbit

theorem extended_responseIn : (responseIn clk resp k).extended peer = peer.busaccessExtBase := by
  have hattr : decide (rpResp resp <<< 8 &&& attrExtBase ≠ 0) = false := by cases resp <;> decide
  show (peer.busaccessExtBase || decide (rpResp resp <<< 8 &&& attrExtBase ≠ 0)) = _
  rw [hattr, Bool.or_false]

theorem headerSize_responseIn : (responseIn clk resp k).headerSize peer = busaccessTxDataptr peer := by
  rw [EncodeBusaccessIn.headerSize, extended_responseIn, busaccessTxDataptr]

theorem hsize_responseIn (hk : ReadPacket p k) : (responseIn clk resp k).hsize = p.dataLength := by
  have hc : (responseIn clk resp k).carriesData = true := by
    have hcmd : (responseIn clk resp k).cmd = Cmd.read := hk.cmd
    have hflag : (responseIn clk resp k).flags &&& flagResponse ≠ 0 := or_flagResponse _
    rw [EncodeBusaccessIn.carriesData, decide_eq_true hcmd, decide_eq_true hflag, Bool.and_self, Bool.or_true]
  rw [EncodeBusaccessIn.hsize, hc, if_pos rfl]
  exact hk.len

theorem retSize_responseIn (hk : ReadPacket p k) : (responseIn clk resp k).retSize = p.dataLength := by
  rw [EncodeBusaccessIn.retSize, if_pos ⟨hk.cmd, or_flagResponse _⟩]
  exact hk.len

theorem dataLen_responseIn (hk : ReadPacket p k) : (responseIn clk resp k).dataLen = p.dataLength.toNat := by
  rw [EncodeBusaccessIn.dataLen, hsize_responseIn hk]

/-- The answer comes back as it was encoded exactly when it fits. -/
theorem fits_responseIn (hk : ReadPacket p k) : Fits peer (responseIn clk resp k) ↔ AnswerFits peer p := by
  have hid : (responseIn clk resp k).masterId = (p.genattr.masterId.setWidth 16).setWidth 64 := hk.masterId
  have hlt : ((p.genattr.masterId.setWidth 16).setWidth 64).toNat < 2 ^ 16 := by
    rw [BitVec.toNat_setWidth, BitVec.toNat_setWidth]
    omega
  have hbe : (responseIn clk resp k).byteEnableLen = 0 := rfl
  rw [Fits, AnswerFits, headerSize_responseIn, dataLen_responseIn hk, extended_responseIn, hid, hbe]
  constructor
  · rintro ⟨hlen, hrest⟩
    refine ⟨?_, by simpa using hlen⟩
    cases he : peer.busaccessExtBase with
    | true => exact .inl rfl
    | false =>
      rw [he] at hrest
      exact .inr hrest.1
  · rintro ⟨hrest, hlen⟩
    refine ⟨by simpa using hlen, ?_⟩
    cases he : peer.busaccessExtBase with
    | true => exact ⟨hlt, .inl rfl⟩
    | false => exact ⟨hrest.resolve_left (by rw [he]; exact Bool.false_ne_true), rfl⟩

theorem answerFits_of_received (hk : ReadPacket p k) (hable : (responseIn clk resp k).Encodable peer)
    (hrec : (responseIn clk resp k).Received peer) : AnswerFits peer p := by
  rw [EncodeBusaccessIn.Encodable, extended_responseIn] at hable
  have hid : (responseIn clk resp k).masterId = (p.genattr.masterId.setWidth 16).setWidth 64 := hk.masterId
  rw [hid] at hable
  refine ⟨hable, ?_⟩
  have hbe : (responseIn clk resp k).byteEnableLen = 0 := rfl
  have h20 : Hdr.size = 20 := rfl
  rw [EncodeBusaccessIn.Received, headerSize_responseIn, EncodeBusaccessIn.hdrLen, extended_responseIn, hsize_responseIn hk, hbe] at hrec
  rw [busaccessTxDataptr] at hrec ⊢
  cases he : peer.busaccessExtBase with
  | true =>
    have hz : p.dataLength + 0 = p.dataLength := BitVec.add_zero _
    rw [he, if_pos rfl, if_pos rfl, BitVec.toNat_add, hz] at hrec
    have h80 : Busaccess.sizeExt = 80 := rfl
    have h60 : (BitVec.ofNat 32 (Busaccess.sizeExt - Hdr.size)).toNat = 60 := rfl
    rw [if_pos rfl]
    omega
  | false =>
    rw [he, if_neg Bool.false_ne_true, if_neg Bool.false_ne_true, BitVec.toNat_add] at hrec
    have h58 : Busaccess.size = 58 := rfl
    have h38 : (BitVec.ofNat 32 (Busaccess.size - Hdr.size)).toNat = 38 := rfl
    rw [if_neg Bool.false_ne_true]
    omega

/-- What `cmd_read` lets the encoder write the packet in front of. -/
def answerBuffer (peer : PeerCaps) (data m₁ : Image) (len : ℕ) : Image := fun i =>
  if busaccessTxDataptr peer ≤ i ∧ i < busaccessTxDataptr peer + len then data (i - busaccessTxDataptr peer) else m₁ i

/-- The answer is the packet with the data behind it. -/
theorem answer_eq_wireImage {data m : Image} {n : ℕ} (hk : ReadPacket p k)
    (henc : encodeBusaccess peer (responseIn clk resp k) (answerBuffer peer data m₁ p.dataLength.toNat) = some (m, n)) :
    (fun i => if i < n then m i else 0) = wireImage ((responseIn clk resp k).headerSize peer) (responseIn clk resp k).dataLen m data fun _ => 0 := by
  obtain ⟨-, hn, -, hrest⟩ := encodeBusaccess_eq_some henc
  rw [headerSize_responseIn, retSize_responseIn hk] at hn
  rw [headerSize_responseIn] at hrest
  rw [headerSize_responseIn, dataLen_responseIn hk]
  funext i
  simp only [wireImage, hn]
  by_cases hhead : i < busaccessTxDataptr peer
  · rw [if_pos hhead, if_pos (by omega)]
  · rw [if_neg hhead]
    by_cases hdata : i < busaccessTxDataptr peer + p.dataLength.toNat
    · rw [if_pos hdata, if_pos hdata, hrest i (Nat.not_lt.1 hhead), answerBuffer, if_pos ⟨Nat.not_lt.1 hhead, hdata⟩]
    · rw [if_neg hdata, if_neg hdata]

/-- The packet that the request arrived as is the one `cmd_read` answers. -/
theorem masterRespond_of_decode {used : ℕ} (hdec : decodePayload (receive wire) = .ok (k, used)) (hk : ReadPacket p k)
    (hi : masterIssue wire = some q) : masterRespond peer clk target m₁ wire =
      (encodeBusaccess peer (responseIn clk (target q).2 k) (answerBuffer peer (target q).1 m₁ q.dataLength.toNat)).map
        fun (m, n) i => if i < n then m i else 0 := by
  have hcmd : ¬ k.hdr.cmd = Cmd.write := by rw [hk.cmd]; decide
  rw [masterIssue, hdec] at hi
  dsimp only at hi
  rw [if_neg hcmd] at hi
  rw [masterRespond, hdec]
  dsimp only
  rw [hi]
  show (encodeBusaccess peer (responseIn clk (target q).2 k) (answerBuffer peer (target q).1 m₁ q.dataLength.toNat)).bind
    (fun r => some fun i => if i < r.2 then r.1 i else 0) = _
  rw [Option.map_eq_bind]
  rfl

/-- What the initiator finds, once its request has been answered. -/
theorem readResult_of_respond {answer : Image} (hposted : p.genattr.posted = false) (hs : slaveSend peer id dev clk m₀ p = some wire)
    (ha : masterRespond peer' clk' target m₁ wire = some answer) : readResult peer peer' id dev clk clk' target m₀ m₁ p =
      match decodePayload (receive answer) with
      | .error _ => none
      | .ok (k, _) => some (slaveRead p k) := by
  rw [readResult, if_neg (by rw [hposted]; exact Bool.false_ne_true), hs]
  show (masterRespond peer' clk' target m₁ wire).bind _ = _
  rw [ha]
  rfl

theorem masterRespond_eq_some (hdec : ∃ used, decodePayload (receive wire) = .ok (k, used)) (hk : ReadPacket p k)
    (hi : masterIssue wire = some q) (hlen : q.dataLength = p.dataLength) {m : Image} {n : ℕ}
    (henc : encodeBusaccess peer (responseIn clk (target q).2 k) (answerBuffer peer (target q).1 m₁ p.dataLength.toNat) = some (m, n)) :
    masterRespond peer clk target m₁ wire = some (wireImage ((responseIn clk (target q).2 k).headerSize peer)
      (responseIn clk (target q).2 k).dataLen m (target q).1 fun _ => 0) := by
  obtain ⟨used, hdec⟩ := hdec
  rw [masterRespond_of_decode hdec hk hi, hlen, henc, ← answer_eq_wireImage hk henc]
  rfl

/-- The initiator finds the answer where the encoder has put it. -/
theorem slaveRead_of_decoded {a : EncodeBusaccessIn} {data be : Image} {used : ℕ} (hlen : a.dataLen = p.dataLength.toNat)
    (hd : DecodedAs peer a data be k used) {i : ℕ} (hi : i < p.dataLength.toNat) :
    slaveRead p k i = if p.enabled i then data i else p.data i := by
  have hdata : k.mem (busaccessRxDataptr k + i) = data i := by
    rw [hd.dataPtr]
    exact hd.data i (by omega)
  rw [slaveRead, if_pos hi, hdata, Payload.enabled]
  by_cases hbe : p.byteEnableLength = 0
  · rw [if_neg (not_not.2 hbe), decide_eq_true hbe, Bool.true_or, if_pos rfl]
  · rw [if_pos hbe, decide_eq_false hbe, Bool.false_or]
    simp only [decide_eq_true_eq]

/-- **A read arrives exactly when** it is accepted, waits for its answer, and the answer fits. -/
theorem readArrives_iff (hr : p.command = .read) : ReadArrives peer peer' id dev clk clk' target m₀ m₁ p ↔
    Accepted peer (busaccessIn id dev clk p) ∧ p.genattr.posted = false ∧ AnswerFits peer' p := by
  have hcmd : ¬ (busaccessIn id dev clk p).cmd = Cmd.write := by
    show ¬ (if p.command = .read then Cmd.read else Cmd.write) = _
    rw [if_pos hr]
    decide
  constructor
  · rintro ⟨wire, q, r, hs, hi, -, -, hlen, hres, -⟩
    obtain ⟨hacc, k, hdec, hk, rfl⟩ := masterIssue_slaveSend hs hi
    have hread := ReadPacket.of_hostOf hr hk
    have hposted : p.genattr.posted = false := by
      by_contra hp
      rw [readResult, if_pos (by simpa using hp)] at hres
      cases hres
    refine ⟨hacc, hposted, ?_⟩
    cases henc : encodeBusaccess peer' (responseIn clk' (target (issued peer (busaccessIn id dev clk p) k)).2 k)
      (answerBuffer peer' (target (issued peer (busaccessIn id dev clk p) k)).1 m₁ p.dataLength.toNat) with
    | none =>
      obtain ⟨used, hdec⟩ := hdec
      have hnone : masterRespond peer' clk' target m₁ wire = none := by
        rw [masterRespond_of_decode hdec hread hi, hlen, henc]
        rfl
      rw [readResult, if_neg (by rw [hposted]; exact Bool.false_ne_true), hs] at hres
      change (masterRespond peer' clk' target m₁ wire).bind _ = _ at hres
      rw [hnone] at hres
      cases hres
    | some mn =>
      obtain ⟨m, n⟩ := mn
      obtain ⟨hm, -, hable, -⟩ := encodeBusaccess_eq_some henc
      rw [readResult_of_respond hposted hs (masterRespond_eq_some hdec hread hi hlen henc)] at hres
      split at hres
      · cases hres
      · rename_i k' used' hdec'
        exact answerFits_of_received hread hable ((decode_sent _ _ (.inl hread.cmd) hm).2 k' used' hdec').1
  · rintro ⟨hacc, hposted, hfits⟩
    obtain ⟨wire, k, hs, hdec, hk, hi⟩ := exists_masterIssue m₀ hacc
    have hread := ReadPacket.of_hostOf hr hk
    have hlen : (issued peer (busaccessIn id dev clk p) k).dataLength = p.dataLength := by
      simp only [issued, if_neg hcmd]
      rfl
    obtain ⟨m, n, k', used', henc, hdec', hd⟩ := roundTrips_of_fits (.inl hread.cmd) ((fits_responseIn hread).2 hfits)
      (answerBuffer peer' (target (issued peer (busaccessIn id dev clk p) k)).1 m₁ p.dataLength.toNat)
      (target (issued peer (busaccessIn id dev clk p) k)).1 fun _ => 0
    refine ⟨wire, _, slaveRead p k', hs, hi, by simp [issued, hcmd], rfl, hlen, ?_, fun i hlt =>
      slaveRead_of_decoded (dataLen_responseIn hread) hd hlt⟩
    rw [readResult_of_respond hposted hs (masterRespond_eq_some hdec hread hi hlen henc), hdec']

end Read

/-- A transaction arrives. -/
def Arrives (peer peer' : PeerCaps) (id dev : BitVec 32) (clk clk' : BitVec 64) (target : Payload → Image × Response)
    (m₀ m₁ : Image) (p : Payload) : Prop :=
  match p.command with
  | .write => WriteArrives peer id dev clk m₀ p
  | .read => ReadArrives peer peer' id dev clk clk' target m₀ m₁ p

/-- When a transaction arrives. -/
def ArrivesWhen (peer peer' : PeerCaps) (id dev : BitVec 32) (clk : BitVec 64) (p : Payload) : Prop :=
  Accepted peer (busaccessIn id dev clk p) ∧
    match p.command with
    | .write => ((busaccessIn id dev clk p).extended peer = true → p.byteEnableLength = 0) ∧ ∀ i < p.dataLength.toNat, p.enabled i = true
    | .read => p.genattr.posted = false ∧ AnswerFits peer' p

/-- **Transactions arrive exactly when** they are accepted, the byte enables of a write are neither sent nor
disable anything, and the answer to a read is awaited and fits. -/
theorem arrives_iff (peer peer' : PeerCaps) (id dev : BitVec 32) (clk clk' : BitVec 64) (target : Payload → Image × Response)
    (m₀ m₁ : Image) (p : Payload) :
    Arrives peer peer' id dev clk clk' target m₀ m₁ p ↔ ArrivesWhen peer peer' id dev clk p := by
  unfold Arrives ArrivesWhen
  cases hc : p.command with
  | write => exact writeArrives_iff hc
  | read => exact readArrives_iff hc

/-- A write of four bytes, the second and the fourth of which are disabled. -/
def maskedWrite : Payload :=
  { secureWrite 1 false with byteEnable := fun i => if i = 0 then byteEnabled else 0, byteEnableLength := 2 }

/-- **A write with byte enables does not arrive**: the master writes six bytes. -/
theorem not_arrives_maskedWrite : ¬ Arrives { busaccessExtBase := true, busaccessExtByteEn := true } { busaccessExtBase := true } 0 0 0 0
    (fun _ => (fun _ => 0, .ok)) (fun _ => 0) (fun _ => 0) maskedWrite := by
  rintro ⟨wire, q, hs, hi, -, -, hlen, -⟩
  obtain ⟨-, k, -, -, rfl⟩ := masterIssue_slaveSend hs hi
  rw [dataLength_issued rfl] at hlen
  exact absurd hlen (by decide)

end LibSystemCTLM.RemotePort
