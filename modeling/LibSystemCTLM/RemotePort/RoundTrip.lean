import LibSystemCTLM.RemotePort.Decode

/-!
# A bus access is decoded as it was encoded

What a peer decodes of an encoded bus access (`RoundTrips`) is what was encoded, in the old and in
the new layout, and the data and byte enables are where the encoder said. The exact condition is
`Fits`: the lengths fit in their fields, and the master id fits in 16 bits. The new layout sends
all of a 64-bit master id and the decoder puts it together again, but the field it is stored in
has 16 bits (`not_roundTrips_masterId`).
-/

namespace LibSystemCTLM.RemotePort

open Foundation

/-! ### What is sent -/

/-- The fields of an encoded bus access that both layouts have. -/
structure EncodedBusaccess (a : EncodeBusaccessIn) (len : BitVec 32) (attr : BitVec 64) (m : Image) : Prop where
  hdr : decodeHdr m = { cmd := a.cmd, len := len, id := a.id, flags := a.flags, dev := a.dev }
  timestamp : bswap (Busaccess.timestamp.get m) = a.clk
  attributes : bswap (Busaccess.attributes.get m) = attr
  addr : bswap (Busaccess.addr.get m) = a.addr
  len : bswap (Busaccess.len.get m) = a.size
  width : bswap (Busaccess.width.get m) = a.width
  streamWidth : bswap (Busaccess.streamWidth.get m) = a.streamWidth
  masterId : bswap (Busaccess.masterId.get m) = a.masterId.setWidth 16

/-- Header and common part of an encoded bus access. -/
def encodeCommon (a : EncodeBusaccessIn) (len : BitVec 32) (attr : BitVec 64) (m : Image) : Image :=
  encodeBusaccessCommon a.clk (a.masterId.setWidth 16) a.addr attr a.size a.width a.streamWidth (encodeHdr a.cmd a.id a.dev len a.flags m)

section Encode

variable {a : EncodeBusaccessIn} {len : BitVec 32} {attr : BitVec 64} {m : Image}

theorem encodedBusaccess_encodeCommon (a : EncodeBusaccessIn) (len : BitVec 32) (attr : BitVec 64) (m : Image) :
    EncodedBusaccess a len attr (encodeCommon a len attr m) := by
  constructor
  case hdr =>
    simp (disch := decide) only [decodeHdr, encodeCommon, encodeBusaccessCommon, encodeHdr, putNet, Field.get_put, Field.get_put_of_apart,
      bswap_bswap]
  all_goals
    simp (disch := decide) only [encodeCommon, encodeBusaccessCommon, encodeHdr, putNet, Field.get_put, Field.get_put_of_apart, bswap_bswap]

/-- The fields of the new layout are behind the common part. -/
theorem get_encodeCommon {w : ℕ} {f : Field w} (h : Busaccess.size ≤ f.off) (a : EncodeBusaccessIn) (len : BitVec 32) (attr : BitVec 64)
    (m : Image) : f.get (encodeCommon a len attr m) = f.get m := by
  have hap : ∀ {v : ℕ} (g : Field v), g.stop ≤ Busaccess.size → f.Apart g := fun g hg => .inr (le_trans hg h)
  simp only [encodeCommon, encodeBusaccessCommon, encodeHdr, putNet]
  repeat rw [Field.get_put_of_apart (hap _ (by decide))]

end Encode

namespace EncodeBusaccessIn

variable (a : EncodeBusaccessIn) (peer : PeerCaps)

/-- The size of the packet in front of its data. -/
def headerSize : ℕ := if a.extended peer then Busaccess.sizeExt else Busaccess.size

/-- The data bytes behind the packet. -/
def dataLen : ℕ := a.hsize.toNat

/-- The attributes as they are sent: `RP_BUS_ATTR_EXT_BASE` tells the layout. -/
def sentAttr : BitVec 64 := if a.extended peer then a.attr ||| attrExtBase else a.attr

end EncodeBusaccessIn

theorem get_wireImage {w n d : ℕ} {f : Field w} {m data be : Image} (h : f.stop ≤ n) : f.get (wireImage n d m data be) = f.get m := by
  apply f.get_congr
  intro p _ hp
  rw [wireImage, if_pos (lt_of_lt_of_le hp h)]

/-- The packet is decoded to what was encoded, its data `data` and byte enables `be` included. -/
structure DecodedAs (peer : PeerCaps) (a : EncodeBusaccessIn) (data be : Image) (k : Packet) (used : ℕ) : Prop where
  cmd : k.hdr.cmd = a.cmd
  id : k.hdr.id = a.id
  flags : k.hdr.flags = a.flags
  dev : k.hdr.dev = a.dev
  timestamp : Busaccess.timestamp.get k.mem = a.clk
  attributes : Busaccess.attributes.get k.mem = a.sentAttr peer
  addr : Busaccess.addr.get k.mem = a.addr
  len : Busaccess.len.get k.mem = a.size
  width : Busaccess.width.get k.mem = a.width
  streamWidth : Busaccess.streamWidth.get k.mem = a.streamWidth
  masterId : (Busaccess.masterId.get k.mem).setWidth 64 = a.masterId
  used : used + Hdr.size = a.headerSize peer
  dataPtr : busaccessRxDataptr k = a.headerSize peer
  data : ∀ i < a.dataLen, k.mem (a.headerSize peer + i) = data i
  byteEnPtr : busaccessByteEnPtr k = .ok (if a.byteEnableLen = 0 then none else some (a.headerSize peer + a.dataLen))
  byteEn : ∀ i < a.byteEnableLen.toNat, k.mem (a.headerSize peer + a.dataLen + i) = be i
  total : a.dataLen + a.byteEnableLen.toNat + a.headerSize peer = k.hdr.len.toNat + Hdr.size

/-- Decoding what was encoded gives it back, whatever the packet's memory held before. -/
def RoundTrips (peer : PeerCaps) (a : EncodeBusaccessIn) (m₀ data be : Image) : Prop :=
  ∃ m n k used, encodeBusaccess peer a m₀ = some (m, n) ∧
    decodePayload (receive (wireImage (a.headerSize peer) a.dataLen m data be)) = .ok (k, used) ∧ DecodedAs peer a data be k used

/-- The lengths and the master id fit in what the layout has for them. -/
def Fits (peer : PeerCaps) (a : EncodeBusaccessIn) : Prop :=
  a.headerSize peer - Hdr.size + a.dataLen + a.byteEnableLen.toNat < 2 ^ 32 ∧
    if a.extended peer then a.masterId.toNat < 2 ^ 16 ∧ (a.byteEnableLen = 0 ∨ Busaccess.sizeExt + a.dataLen < 2 ^ 32)
    else a.masterId < uint16Max ∧ a.byteEnableLen = 0

section RoundTrip

variable {peer : PeerCaps} {a : EncodeBusaccessIn} {m₀ data be : Image}

theorem decodePayload_busaccess {k : Packet} (h : k.hdr.cmd = Cmd.read ∨ k.hdr.cmd = Cmd.write) : decodePayload k = decodeBusaccess k := by
  unfold decodePayload
  rcases h with h | h <;> rw [h] <;> rfl

theorem decodeHdr_wireImage {n d : ℕ} {m : Image} (h : Hdr.size ≤ n) : decodeHdr (wireImage n d m data be) = decodeHdr m := by
  simp only [decodeHdr]
  rw [get_wireImage (le_trans (by decide) h), get_wireImage (le_trans (by decide) h), get_wireImage (le_trans (by decide) h),
    get_wireImage (le_trans (by decide) h), get_wireImage (le_trans (by decide) h)]

theorem and_attrExtBase_of_or (x : BitVec 64) : (x ||| attrExtBase) &&& attrExtBase ≠ 0 := by
  intro h
  have hbit := congrArg (fun y : BitVec 64 => y.getLsbD 2) h
  simp [attrExtBase] at hbit

theorem encodeBusaccess_old (h : a.extended peer = false) (hm : a.masterId < uint16Max) : encodeBusaccess peer a m₀ =
    some (encodeCommon a (BitVec.ofNat 32 (Busaccess.size - Hdr.size) + a.hsize) a.attr m₀, Busaccess.size + a.retSize.toNat) := by
  rw [encodeBusaccess, if_pos h, if_pos hm]
  rfl

/-- The fields that only the new layout has, encoded. -/
def encodeExt (a : EncodeBusaccessIn) (m : Image) : Image :=
  putNet Busaccess.byteEnableLen a.byteEnableLen (putNet Busaccess.byteEnableOffset (BitVec.ofNat 32 Busaccess.sizeExt + a.hsize)
    (putNet Busaccess.nextOffset 0 (putNet Busaccess.dataOffset (BitVec.ofNat 32 Busaccess.sizeExt)
      (putNet Busaccess.masterId63_32 ((a.masterId >>> 32).setWidth 32) (putNet Busaccess.masterId31_16 ((a.masterId >>> 16).setWidth 16) m)))))

theorem encodeBusaccess_new (h : a.extended peer = true) : encodeBusaccess peer a m₀ =
    some (encodeCommon a (BitVec.ofNat 32 (Busaccess.sizeExt - Hdr.size) + (a.hsize + a.byteEnableLen)) (a.attr ||| attrExtBase)
      (encodeExt a m₀), Busaccess.sizeExt + a.retSize.toNat) := by
  rw [encodeBusaccess, if_neg (by rw [h]; exact Bool.true_eq_false_eq_False)]
  rfl

/-- The data and the byte enables follow the packet, whatever the decoder did to the packet itself. -/
theorem wireImage_data {n d i : ℕ} {m : Image} (hi : i < d) : wireImage n d m data be (n + i) = data i := by
  rw [wireImage, if_neg (by omega), if_pos (by omega), Nat.add_sub_cancel_left]

theorem wireImage_byteEn {n d i : ℕ} {m : Image} : wireImage n d m data be (n + d + i) = be i := by
  rw [wireImage, if_neg (by omega), if_neg (by omega)]
  congr 1
  omega

/-- What the decoder has swapped in a packet that holds an encoded bus access. -/
theorem DecodedAs.of_host {m : Image} {k' : Packet} {n used : ℕ} {len : BitVec 32} (hm : EncodedBusaccess a len (a.sentAttr peer) m)
    (hn : a.headerSize peer = n) (hk : BusaccessHost n (receive (wireImage (a.headerSize peer) a.dataLen m data be)) k')
    (hid : a.masterId.toNat < 2 ^ 16) (hused : used + Hdr.size = a.headerSize peer) (hptr : busaccessRxDataptr k' = a.headerSize peer)
    (hbe : busaccessByteEnPtr k' = .ok (if a.byteEnableLen = 0 then none else some (a.headerSize peer + a.dataLen)))
    (htotal : a.dataLen + a.byteEnableLen.toNat + a.headerSize peer = len.toNat + Hdr.size) : DecodedAs peer a data be k' used := by
  have hsize : Busaccess.size ≤ a.headerSize peer := by
    unfold EncodeBusaccessIn.headerSize
    split <;> decide
  have hget : ∀ {w : ℕ} (f : Field w), f.stop ≤ Busaccess.size →
      f.get (receive (wireImage (a.headerSize peer) a.dataLen m data be)).mem = f.get m :=
    fun f hf => get_wireImage (le_trans hf hsize)
  have hhdr : k'.hdr = { cmd := a.cmd, len := len, id := a.id, flags := a.flags, dev := a.dev } :=
    hk.hdr.trans ((decodeHdr_wireImage (le_trans (by decide) hsize)).trans hm.hdr)
  constructor
  case cmd => rw [hhdr]
  case id => rw [hhdr]
  case flags => rw [hhdr]
  case dev => rw [hhdr]
  case timestamp => rw [hk.timestamp, hget _ (by decide), hm.timestamp]
  case attributes => rw [hk.attributes, hget _ (by decide), hm.attributes]
  case addr => rw [hk.addr, hget _ (by decide), hm.addr]
  case len => rw [hk.len, hget _ (by decide), hm.len]
  case width => rw [hk.width, hget _ (by decide), hm.width]
  case streamWidth => rw [hk.streamWidth, hget _ (by decide), hm.streamWidth]
  case masterId =>
    rw [hk.masterId, hget _ (by decide), hm.masterId]
    apply BitVec.eq_of_toNat_eq
    rw [BitVec.toNat_setWidth, BitVec.toNat_setWidth, Nat.mod_eq_of_lt hid, Nat.mod_eq_of_lt a.masterId.isLt]
  case used => exact hused
  case dataPtr => exact hptr
  case data =>
    intro i hi
    rw [hk.rest _ (by omega)]
    exact wireImage_data hi
  case byteEnPtr => exact hbe
  case byteEn =>
    intro i _
    rw [hk.rest _ (by omega)]
    exact wireImage_byteEn
  case total => rw [hhdr]; exact htotal

theorem roundTrips_old (he : a.extended peer = false) (hcmd : a.cmd = Cmd.read ∨ a.cmd = Cmd.write) (h : Fits peer a) :
    RoundTrips peer a m₀ data be := by
  obtain ⟨hlen, hrest⟩ := h
  rw [he, if_neg Bool.false_ne_true] at hrest
  obtain ⟨hid, hbe⟩ := hrest
  have hsize : a.headerSize peer = Busaccess.size := by rw [EncodeBusaccessIn.headerSize, he]; rfl
  have hattr : a.sentAttr peer = a.attr := by rw [EncodeBusaccessIn.sentAttr, he]; rfl
  have hno : a.attr &&& attrExtBase = 0 := by
    have h := he
    simp only [EncodeBusaccessIn.extended, Bool.or_eq_false_iff, decide_eq_false_iff_not, not_not] at h
    exact h.2
  have hm := encodedBusaccess_encodeCommon a (BitVec.ofNat 32 (Busaccess.size - Hdr.size) + a.hsize) a.attr m₀
  set m := encodeCommon a (BitVec.ofNat 32 (Busaccess.size - Hdr.size) + a.hsize) a.attr m₀
  have htoNat : (BitVec.ofNat 32 (Busaccess.size - Hdr.size) + a.hsize).toNat = 38 + a.dataLen := by
    rw [BitVec.toNat_add, BitVec.toNat_ofNat]
    show (38 + a.dataLen) % 2 ^ 32 = _
    rw [hsize] at hlen
    have : Busaccess.size - Hdr.size = 38 := rfl
    omega
  have hhdr : (receive (wireImage (a.headerSize peer) a.dataLen m data be)).hdr = decodeHdr m := decodeHdr_wireImage (by rw [hsize]; decide)
  have hl : (receive (wireImage (a.headerSize peer) a.dataLen m data be)).hdr.len.toNat = 38 + a.dataLen := by rw [hhdr, hm.hdr]; exact htoNat
  have hat : bswap (Busaccess.attributes.get (receive (wireImage (a.headerSize peer) a.dataLen m data be)).mem) = a.attr := by
    rw [← hm.attributes]
    exact congrArg bswap (get_wireImage (by rw [hsize]; decide))
  obtain ⟨k', hk', hhost⟩ := decodeBusaccess_base (k := receive (wireImage (a.headerSize peer) a.dataLen m data be))
    (by rw [hl]; exact Nat.le_add_right ..) (receive_covers (by rw [hl]; show 58 ≤ 20 + (38 + a.dataLen); omega)) (by rw [hat]; exact hno)
  have hat' : Busaccess.attributes.get k'.mem &&& attrExtBase = 0 := by rw [hhost.attributes, hat]; exact hno
  refine ⟨m, _, k', _, encodeBusaccess_old he hid, (decodePayload_busaccess ?_).trans hk', ?_⟩
  · rw [hhdr, hm.hdr]
    exact hcmd
  · rw [← hattr] at hm
    refine .of_host hm hsize hhost (lt_of_lt_of_le hid (by decide)) (by rw [hsize]; rfl) ?_ ?_ ?_
    · rw [busaccessRxDataptr, if_neg (not_not.2 hat'), hsize]
    · rw [busaccessByteEnPtr, if_neg (fun hc => hc.1 hat'), if_pos hbe]
    · rw [htoNat, hsize, hbe]
      show a.dataLen + 0 + 58 = 38 + a.dataLen + 20
      omega

theorem roundTrips_new (he : a.extended peer = true) (hcmd : a.cmd = Cmd.read ∨ a.cmd = Cmd.write) (h : Fits peer a) :
    RoundTrips peer a m₀ data be := by
  obtain ⟨hlen, hrest⟩ := h
  rw [he, if_pos rfl] at hrest
  obtain ⟨hid, hbe⟩ := hrest
  have hsize : a.headerSize peer = Busaccess.sizeExt := by rw [EncodeBusaccessIn.headerSize, he]; rfl
  have hattr : a.sentAttr peer = a.attr ||| attrExtBase := by rw [EncodeBusaccessIn.sentAttr, he]; rfl
  have hm := encodedBusaccess_encodeCommon a (BitVec.ofNat 32 (Busaccess.sizeExt - Hdr.size) + (a.hsize + a.byteEnableLen))
    (a.attr ||| attrExtBase) (encodeExt a m₀)
  set m := encodeCommon a (BitVec.ofNat 32 (Busaccess.sizeExt - Hdr.size) + (a.hsize + a.byteEnableLen)) (a.attr ||| attrExtBase)
    (encodeExt a m₀) with hmdef
  have hdl : a.hsize.toNat = a.dataLen := rfl
  have h60 : Busaccess.sizeExt - Hdr.size = 60 := rfl
  rw [hsize, h60] at hlen
  have htoNat : (BitVec.ofNat 32 (Busaccess.sizeExt - Hdr.size) + (a.hsize + a.byteEnableLen)).toNat =
      60 + (a.dataLen + a.byteEnableLen.toNat) := by
    rw [BitVec.toNat_add, BitVec.toNat_add, BitVec.toNat_ofNat, h60, hdl]
    omega
  have hhdr : (receive (wireImage (a.headerSize peer) a.dataLen m data be)).hdr = decodeHdr m := decodeHdr_wireImage (by rw [hsize]; decide)
  have hl : (receive (wireImage (a.headerSize peer) a.dataLen m data be)).hdr.len.toNat = 60 + (a.dataLen + a.byteEnableLen.toNat) := by
    rw [hhdr, hm.hdr]
    exact htoNat
  have hget : ∀ {w : ℕ} (f : Field w), f.stop ≤ Busaccess.sizeExt →
      f.get (receive (wireImage (a.headerSize peer) a.dataLen m data be)).mem = f.get m := fun f hf => get_wireImage (by rw [hsize]; exact hf)
  have hat : bswap (Busaccess.attributes.get (receive (wireImage (a.headerSize peer) a.dataLen m data be)).mem) = a.attr ||| attrExtBase := by
    rw [hget _ (by decide), hm.attributes]
  obtain ⟨k', hk', hhost, hdo, hbo, hbl⟩ := decodeBusaccess_ext (k := receive (wireImage (a.headerSize peer) a.dataLen m data be))
    (by rw [hl]; exact Nat.le_add_right ..) (receive_covers (by rw [hl]; show 80 ≤ 20 + _; omega))
    (by rw [hat]; exact and_attrExtBase_of_or _)
  -- the fields of the new layout
  have hdo' : Busaccess.dataOffset.get k'.mem = BitVec.ofNat 32 Busaccess.sizeExt := by
    rw [hdo, hget _ (by decide), hmdef, get_encodeCommon (by decide)]
    simp (disch := decide) only [encodeExt, putNet, Field.get_put, Field.get_put_of_apart, bswap_bswap]
  have hbo' : Busaccess.byteEnableOffset.get k'.mem = BitVec.ofNat 32 Busaccess.sizeExt + a.hsize := by
    rw [hbo, hget _ (by decide), hmdef, get_encodeCommon (by decide)]
    simp (disch := decide) only [encodeExt, putNet, Field.get_put, Field.get_put_of_apart, bswap_bswap]
  have hbl' : Busaccess.byteEnableLen.get k'.mem = a.byteEnableLen := by
    rw [hbl, hget _ (by decide), hmdef, get_encodeCommon (by decide)]
    simp (disch := decide) only [encodeExt, putNet, Field.get_put, bswap_bswap]
  have hat' : Busaccess.attributes.get k'.mem &&& attrExtBase ≠ 0 := by rw [hhost.attributes, hat]; exact and_attrExtBase_of_or _
  have hh' : k'.hdr.len.toNat = 60 + (a.dataLen + a.byteEnableLen.toNat) := by rw [hhost.hdr, hl]
  refine ⟨m, _, k', _, encodeBusaccess_new he, (decodePayload_busaccess ?_).trans hk', ?_⟩
  · rw [hhdr, hm.hdr]
    exact hcmd
  · rw [← hattr] at hm
    refine .of_host hm hsize hhost hid (by rw [hsize]; rfl) ?_ ?_ ?_
    · rw [busaccessRxDataptr, if_pos hat', hdo', hsize]
      rfl
    · rw [busaccessByteEnPtr, hbl', hbo', hsize]
      by_cases hb : a.byteEnableLen = 0
      · rw [if_pos hb, if_neg (fun hc => hc.2 hb)]
      · have hlt := hbe.resolve_left hb
        have h80 : Busaccess.sizeExt = 80 := rfl
        have hoff : (BitVec.ofNat 32 Busaccess.sizeExt + a.hsize).toNat = 80 + a.dataLen := by
          rw [BitVec.toNat_add, BitVec.toNat_ofNat, h80, hdl]
          omega
        have hsum : (BitVec.ofNat 32 Busaccess.sizeExt + a.hsize + a.byteEnableLen).toNat ≤ 80 + a.dataLen + a.byteEnableLen.toNat := by
          rw [BitVec.toNat_add, hoff]
          exact Nat.mod_le _ _
        have h20 : Hdr.size = 20 := rfl
        rw [if_neg hb, if_pos ⟨hat', hb⟩, if_pos ⟨by rw [hoff]; exact Nat.le_add_right .., by rw [hh']; omega⟩, hoff, h80]
    · rw [htoNat, hsize]
      show a.dataLen + a.byteEnableLen.toNat + 80 = 60 + _ + 20
      omega

/-- A round trip shows that everything fits. -/
theorem RoundTrips.fits (h : RoundTrips peer a m₀ data be) (hcmd : a.cmd = Cmd.read ∨ a.cmd = Cmd.write) : Fits peer a := by
  obtain ⟨m, n, k, used, henc, hdec, hd⟩ := h
  have hlt := k.hdr.len.isLt
  have htotal := hd.total
  have hid : a.masterId.toNat < 2 ^ 16 := by
    rw [← hd.masterId, BitVec.toNat_setWidth]
    exact lt_of_le_of_lt (Nat.mod_le _ _) (BitVec.isLt _)
  have h20 : Hdr.size = 20 := rfl
  have hsize : Busaccess.size ≤ a.headerSize peer := by
    unfold EncodeBusaccessIn.headerSize
    split <;> decide
  have h58 : Busaccess.size = 58 := rfl
  refine ⟨by omega, ?_⟩
  cases he : a.extended peer with
  | true =>
    rw [if_pos rfl]
    refine ⟨hid, ?_⟩
    by_cases hb : a.byteEnableLen = 0
    · exact .inl hb
    · refine .inr ?_
      have hptr := hd.byteEnPtr
      have hsize : a.headerSize peer = Busaccess.sizeExt := by rw [EncodeBusaccessIn.headerSize, he]; rfl
      rw [if_neg hb, busaccessByteEnPtr, hsize] at hptr
      split at hptr
      · split at hptr
        · have heq := Option.some.inj (Except.ok.inj hptr)
          rw [← heq]
          exact BitVec.isLt _
        · cases hptr
      · cases hptr
  | false =>
    rw [if_neg Bool.false_ne_true]
    have hm : a.masterId < uint16Max := by
      by_contra hm
      rw [encodeBusaccess, if_pos he, if_neg hm] at henc
      cases henc
    refine ⟨hm, ?_⟩
    rw [encodeBusaccess_old he hm] at henc
    obtain ⟨rfl, -⟩ := Prod.mk.inj (Option.some.inj henc)
    have hsize : a.headerSize peer = Busaccess.size := by rw [EncodeBusaccessIn.headerSize, he]; rfl
    have hm := encodedBusaccess_encodeCommon a (BitVec.ofNat 32 (Busaccess.size - Hdr.size) + a.hsize) a.attr m₀
    set m := encodeCommon a (BitVec.ofNat 32 (Busaccess.size - Hdr.size) + a.hsize) a.attr m₀
    have hhdr : decodeHdr (wireImage (a.headerSize peer) a.dataLen m data be) = decodeHdr m := decodeHdr_wireImage (by rw [hsize]; decide)
    rw [decodePayload_busaccess (by show (decodeHdr _).cmd = _ ∨ (decodeHdr _).cmd = _; rw [hhdr, hm.hdr]; exact hcmd)] at hdec
    have hlen : k.hdr.len.toNat ≤ 38 + a.dataLen := by
      rw [(decodeBusaccess_ok hdec).1.hdr]
      show (decodeHdr _).len.toNat ≤ _
      rw [hhdr, hm.hdr]
      show (BitVec.ofNat 32 (Busaccess.size - Hdr.size) + a.hsize).toNat ≤ _
      rw [BitVec.toNat_add, BitVec.toNat_ofNat]
      exact Nat.mod_le _ _
    apply BitVec.eq_of_toNat_eq
    show a.byteEnableLen.toNat = 0
    omega

theorem roundTrips_of_fits (hcmd : a.cmd = Cmd.read ∨ a.cmd = Cmd.write) (h : Fits peer a) (m₀ data be : Image) :
    RoundTrips peer a m₀ data be := by
  cases he : a.extended peer with
  | true => exact roundTrips_new he hcmd h
  | false => exact roundTrips_old he hcmd h

/-- **A bus access is decoded as it was encoded exactly when its lengths and its master id fit.** -/
theorem roundTrips_iff (hcmd : a.cmd = Cmd.read ∨ a.cmd = Cmd.write) : RoundTrips peer a m₀ data be ↔ Fits peer a := by
  constructor
  · exact fun h => h.fits hcmd
  · exact fun h => roundTrips_of_fits hcmd h m₀ data be

end RoundTrip

/-- A write of four bytes with two byte enables. -/
def writeOf (masterId : BitVec 64) : EncodeBusaccessIn where
  cmd := Cmd.write
  id := 7
  flags := 0
  dev := 1
  clk := 100
  masterId := masterId
  addr := 0xfffffffff000
  attr := attrSecure
  size := 4
  width := 0
  streamWidth := 4
  byteEnableLen := 2

theorem roundTrips_writeOf : RoundTrips { busaccessExtBase := true } (writeOf 0x1234) (fun _ => 0) (fun _ => 0xa5) (fun _ => 0xff) :=
  (roundTrips_iff (.inr rfl)).2 (by unfold Fits; decide)

/-- **A master id is lost**: the new layout carries all 64 bits of it, and the decoder keeps 16. -/
theorem not_roundTrips_masterId : ¬ RoundTrips { busaccessExtBase := true } (writeOf 0x10000) (fun _ => 0) (fun _ => 0xa5) (fun _ => 0xff) := by
  intro h
  have hfit := h.fits (.inr rfl)
  revert hfit
  unfold Fits
  decide

end LibSystemCTLM.RemotePort
