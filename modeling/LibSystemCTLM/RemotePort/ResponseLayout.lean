import LibSystemCTLM.RemotePort.Transport

/-!
# The layout of a response

How the master answers a bus access that it has received (`cmd_read_null` and `cmd_write_null` of
`remote-port-tlm-memory-master.cc`), with a device behind it or none. The attributes of a response start from
nothing, so that its layout is the one that the peer's capabilities tell (`extended_responseIn`), and the data of a
read is left where the encoder will say (`headerSize_responseIn`). What the requester decodes of it is said by
`Answers`, and exactly when it gets such an answer by `answered_iff`.

An answer is lost in one way that is not a matter of size: a peer without the new layout, with the master id `0xffff`,
which the encoder's assertion takes for too large (`not_answered_masterId`).

## Honest scope

A peer says what it can before it sends requests, so that its capabilities are the same before and after the device
is accessed. The time of the master is a parameter.
-/

namespace LibSystemCTLM.RemotePort

open Foundation

variable (peer : PeerCaps) (now : BitVec 64) (dev : Option (Payload → Image × Response)) (m₀ : Image) (k : Packet) (used : ℕ)

/-- The access to the device, or without one the zeros of a read. -/
def served : Option (Image × Response) :=
  match dev with
  | none => some (fun _ => 0, .ok)
  | some target =>
    if k.hdr.cmd = Cmd.write then
      (rpBusAccess k .write (fun i => k.mem (Hdr.size + used + i)) (k.hdr.len - BitVec.ofNat 32 used)).map target
    else (rpBusAccess k .read (fun _ => 0) (Busaccess.len.get k.mem)).map target

/-- `in.clk`: the local time and the timestamp of the request. -/
def responseClk : BitVec 64 := now + Busaccess.timestamp.get k.mem

/-- The packet with the data of a read, where they were predicted to go. -/
def responseBuffer (data : Image) : Image :=
  if k.hdr.cmd = Cmd.read then fun i =>
    if busaccessTxDataptr peer ≤ i ∧ i < busaccessTxDataptr peer + (Busaccess.len.get k.mem).toNat then data (i - busaccessTxDataptr peer) else m₀ i
  else m₀

/-- What is written to the socket: the packet, once the response is encoded in it. -/
def respond (r : Image × Response) : Option Image :=
  (encodeBusaccess peer (responseIn (responseClk now k) r.2 k) (responseBuffer peer m₀ k r.1)).map fun (m, n) i => if i < n then m i else 0

/-- A posted write is not answered. -/
def Silent : Prop := k.hdr.cmd = Cmd.write ∧ k.hdr.flags &&& flagPosted ≠ 0

instance : Decidable (Silent k) := inferInstanceAs (Decidable (_ ∧ _))

/-- What the requester decodes: the answer to its request, in the new layout only if it has told that it knows it, with the
response of the device and, for a read, the data where the master has predicted it. -/
structure Answers (r : Image × Response) (k' : Packet) (used' : ℕ) : Prop where
  cmd : k'.hdr.cmd = k.hdr.cmd
  id : k'.hdr.id = k.hdr.id
  dev : k'.hdr.dev = k.hdr.dev
  flags : k'.hdr.flags = k.hdr.flags ||| flagResponse
  timestamp : Busaccess.timestamp.get k'.mem = responseClk now k
  attributes : Busaccess.attributes.get k'.mem = rpResp r.2 <<< 8 ||| if peer.busaccessExtBase then attrExtBase else 0
  used : used' + Hdr.size = busaccessTxDataptr peer
  dataptr : busaccessRxDataptr k' = busaccessTxDataptr peer
  len : Busaccess.len.get k'.mem = Busaccess.len.get k.mem
  data : k.hdr.cmd = Cmd.read → ∀ i < (Busaccess.len.get k.mem).toNat, k'.mem (busaccessTxDataptr peer + i) = r.1 i

/-- The request is served and, if it is not a posted write, answered. -/
def Answered : Prop :=
  ∃ r, served dev k used = some r ∧ (¬Silent k → ∃ wire k' used', respond peer now m₀ k r = some wire ∧
    decodePayload (receive wire) = .ok (k', used') ∧ Answers peer now k r k' used')

/-- The response can be encoded, and the length in its header does not wrap. -/
def ResponseFits : Prop :=
  (peer.busaccessExtBase = true ∨ Busaccess.masterId.get k.mem ≠ 0xffff) ∧
    (k.hdr.cmd = Cmd.read → busaccessTxDataptr peer - Hdr.size + (Busaccess.len.get k.mem).toNat < 2 ^ 32)

section

variable {peer : PeerCaps} {now clk : BitVec 64} {dev : Option (Payload → Image × Response)} {m₀ m : Image} {k : Packet} {used n : ℕ}
  {resp : Response} {r : Image × Response}

/-! ### What is encoded -/

theorem carriesData_response : (responseIn clk resp k).carriesData = decide (k.hdr.cmd = Cmd.read) := by
  have hflag : (responseIn clk resp k).flags &&& flagResponse ≠ 0 := or_flagResponse _
  have hk : (responseIn clk resp k).cmd = k.hdr.cmd := rfl
  rw [EncodeBusaccessIn.carriesData, decide_eq_false hflag, decide_eq_true hflag, Bool.and_false, Bool.false_or, Bool.and_true, hk]

theorem hsize_response : (responseIn clk resp k).hsize = if k.hdr.cmd = Cmd.read then Busaccess.len.get k.mem else 0 := by
  simp only [EncodeBusaccessIn.hsize, carriesData_response, decide_eq_true_eq]
  rfl

theorem dataLen_response : (responseIn clk resp k).dataLen = if k.hdr.cmd = Cmd.read then (Busaccess.len.get k.mem).toNat else 0 := by
  rw [EncodeBusaccessIn.dataLen, hsize_response]
  split <;> rfl

theorem retSize_response : (responseIn clk resp k).retSize.toNat = if k.hdr.cmd = Cmd.read then (Busaccess.len.get k.mem).toNat else 0 := by
  have hflag : (responseIn clk resp k).flags &&& flagResponse ≠ 0 := or_flagResponse _
  have hk : (responseIn clk resp k).cmd = k.hdr.cmd := rfl
  rw [EncodeBusaccessIn.retSize, hk]
  by_cases hread : k.hdr.cmd = Cmd.read
  · rw [if_pos ⟨hread, hflag⟩, if_pos hread]
    rfl
  · rw [if_neg fun h => hread h.1, if_neg hread]
    rfl

/-- The packet is followed by the data of a read. -/
theorem sent_eq_wireImage {data : Image} (henc : encodeBusaccess peer (responseIn clk resp k) (responseBuffer peer m₀ k data) = some (m, n)) :
    (fun i => if i < n then m i else 0) = wireImage ((responseIn clk resp k).headerSize peer) (responseIn clk resp k).dataLen m data fun _ => 0 := by
  obtain ⟨-, hn, -, hrest⟩ := encodeBusaccess_eq_some henc
  rw [headerSize_responseIn, retSize_response] at hn
  rw [headerSize_responseIn] at hrest
  rw [headerSize_responseIn, dataLen_response]
  funext i
  simp only [wireImage, hn]
  by_cases hhead : i < busaccessTxDataptr peer
  · rw [if_pos hhead, if_pos (by omega)]
  · rw [if_neg hhead]
    by_cases hread : k.hdr.cmd = Cmd.read
    · simp only [responseBuffer, if_pos hread] at hrest ⊢
      by_cases hdata : i < busaccessTxDataptr peer + (Busaccess.len.get k.mem).toNat
      · rw [if_pos hdata, if_pos hdata, hrest i (Nat.not_lt.1 hhead), if_pos ⟨Nat.not_lt.1 hhead, hdata⟩]
      · rw [if_neg hdata, if_neg hdata]
    · simp only [if_neg hread, Nat.add_zero, if_neg hhead]

theorem masterId_lt_iff : (responseIn clk resp k).masterId < uint16Max ↔ Busaccess.masterId.get k.mem ≠ 0xffff := by
  have hid : (responseIn clk resp k).masterId = (Busaccess.masterId.get k.mem).setWidth 64 := rfl
  have hlt := (Busaccess.masterId.get k.mem).isLt
  have hmax : uint16Max.toNat = 65535 := rfl
  rw [hid, BitVec.lt_def, BitVec.toNat_setWidth, hmax, Ne, ← BitVec.toNat_inj]
  show _ ↔ ¬_ = 65535
  omega

/-- A response is decoded as it was encoded exactly when it fits. -/
theorem fits_response : Fits peer (responseIn clk resp k) ↔ ResponseFits peer k := by
  have hbe : (responseIn clk resp k).byteEnableLen = 0 := rfl
  have hlt : (responseIn clk resp k).masterId.toNat < 2 ^ 16 := by
    show ((Busaccess.masterId.get k.mem).setWidth 64).toNat < _
    rw [BitVec.toNat_setWidth]
    omega
  have hptr : busaccessTxDataptr peer ≤ 80 := by
    unfold busaccessTxDataptr
    split <;> decide
  have hlen : busaccessTxDataptr peer - Hdr.size + (if k.hdr.cmd = Cmd.read then (Busaccess.len.get k.mem).toNat else 0) < 2 ^ 32 ↔
      (k.hdr.cmd = Cmd.read → busaccessTxDataptr peer - Hdr.size + (Busaccess.len.get k.mem).toNat < 2 ^ 32) := by
    split
    · rename_i hread
      exact ⟨fun h _ => h, fun h => h hread⟩
    · rename_i hread
      exact iff_of_true (by omega) fun h => absurd h hread
  rw [Fits, ResponseFits, headerSize_responseIn, dataLen_response, extended_responseIn, hbe, ← hlen, masterId_lt_iff]
  cases peer.busaccessExtBase with
  | true => exact ⟨fun h => ⟨.inl rfl, h.1⟩, fun h => ⟨h.2, hlt, .inl rfl⟩⟩
  | false => exact ⟨fun h => ⟨.inr h.2.1, h.1⟩, fun h => ⟨h.2, h.1.resolve_left Bool.false_ne_true, rfl⟩⟩

/-- The device can be accessed: `rp_bus_access` asserts that the width is left open. -/
theorem exists_served_iff : (∃ r, served dev k used = some r) ↔ (dev.isSome = true → Busaccess.width.get k.mem = 0) := by
  cases dev with
  | none => exact iff_of_true ⟨_, rfl⟩ fun h => by cases h
  | some target =>
    rw [forall_prop_of_true (by rfl)]
    by_cases hw : Busaccess.width.get k.mem = 0
    · refine iff_of_true ?_ hw
      simp only [served, rpBusAccess, if_pos hw, Option.map_some]
      split <;> exact ⟨_, rfl⟩
    · refine iff_of_false ?_ hw
      simp only [served, rpBusAccess, if_neg hw, Option.map_none]
      rintro ⟨r, hr⟩
      split at hr <;> cases hr

/-! ### What is decoded -/

theorem responseFits_of_decode (hcmd : k.hdr.cmd = Cmd.read ∨ k.hdr.cmd = Cmd.write) {wire : Image} {k' : Packet} {used' : ℕ}
    (h : respond peer now m₀ k r = some wire) (hdec : decodePayload (receive wire) = .ok (k', used')) : ResponseFits peer k := by
  obtain ⟨⟨m, n⟩, henc, rfl⟩ := Option.map_eq_some_iff.1 h
  obtain ⟨hm, -, hable, -⟩ := encodeBusaccess_eq_some henc
  dsimp only at hdec
  rw [sent_eq_wireImage henc] at hdec
  obtain ⟨hrec, -, -⟩ := (decode_sent _ _ hcmd hm).2 k' used' hdec
  rw [EncodeBusaccessIn.Encodable, extended_responseIn, masterId_lt_iff] at hable
  refine ⟨hable, fun hread => ?_⟩
  have hlt := (Busaccess.len.get k.mem).isLt
  have h20 : Hdr.size = 20 := rfl
  have hbe : (responseIn (responseClk now k) r.2 k).byteEnableLen = 0 := rfl
  rw [EncodeBusaccessIn.Received, headerSize_responseIn, EncodeBusaccessIn.hdrLen, extended_responseIn, hsize_response, if_pos hread, hbe,
    show Busaccess.len.get k.mem + 0 = Busaccess.len.get k.mem from BitVec.add_zero _] at hrec
  -- a length that wraps is below the packet's own
  unfold busaccessTxDataptr at hrec ⊢
  split at hrec
  · rename_i he
    have h80 : Busaccess.sizeExt = 80 := rfl
    have h60 : (BitVec.ofNat 32 (Busaccess.sizeExt - Hdr.size)).toNat = 60 := rfl
    rw [BitVec.toNat_add, h60] at hrec
    rw [if_pos he]
    omega
  · rename_i he
    have h58 : Busaccess.size = 58 := rfl
    have h38 : (BitVec.ofNat 32 (Busaccess.size - Hdr.size)).toNat = 38 := rfl
    rw [BitVec.toNat_add, h38] at hrec
    rw [if_neg he]
    omega

/-- A response that fits is what the requester decodes. -/
theorem answers_of_responseFits (hcmd : k.hdr.cmd = Cmd.read ∨ k.hdr.cmd = Cmd.write) (h : ResponseFits peer k) (r : Image × Response) :
    ∃ wire k' used', respond peer now m₀ k r = some wire ∧ decodePayload (receive wire) = .ok (k', used') ∧ Answers peer now k r k' used' := by
  obtain ⟨m, n, k', used', henc, hdec, hd⟩ := roundTrips_of_fits (a := responseIn (responseClk now k) r.2 k) hcmd (fits_response.2 h)
    (responseBuffer peer m₀ k r.1) r.1 fun _ => 0
  have hptr : (responseIn (responseClk now k) r.2 k).headerSize peer = busaccessTxDataptr peer := headerSize_responseIn
  refine ⟨_, k', used', by rw [respond, henc]; rfl, ?_, ?_⟩
  · dsimp only
    rw [sent_eq_wireImage henc, hdec]
  · refine ⟨hd.cmd, hd.id, hd.dev, hd.flags, hd.timestamp, ?_, ?_, ?_, hd.len, fun hread i hi => ?_⟩
    · rw [hd.attributes, EncodeBusaccessIn.sentAttr, extended_responseIn]
      cases peer.busaccessExtBase with
      | true => rfl
      | false => exact (BitVec.or_zero ..).symm
    · rw [hd.used, hptr]
    · rw [hd.dataPtr, hptr]
    · rw [← hptr, hd.data i (by rw [dataLen_response, if_pos hread]; exact hi)]

/-- **The layout of a response.** A request is answered exactly if its width is left open, or there is no device, and the
response fits: for a peer without the new layout the master id is not `0xffff`, and header and data of a read response do not wrap
the length. -/
theorem answered_iff (hcmd : k.hdr.cmd = Cmd.read ∨ k.hdr.cmd = Cmd.write) : Answered peer now dev m₀ k used ↔
    (dev.isSome = true → Busaccess.width.get k.mem = 0) ∧ (Silent k ∨ ResponseFits peer k) := by
  have hserved : (∃ r, served dev k used = some r) ↔ (dev.isSome = true → Busaccess.width.get k.mem = 0) := exists_served_iff
  rw [← hserved]
  constructor
  · rintro ⟨r, hr, hans⟩
    refine ⟨⟨r, hr⟩, ?_⟩
    by_cases hs : Silent k
    · exact .inl hs
    · obtain ⟨wire, k', used', hwire, hdec, -⟩ := hans hs
      exact .inr (responseFits_of_decode hcmd hwire hdec)
  · rintro ⟨⟨r, hr⟩, hs | hfits⟩
    · exact ⟨r, hr, fun h => absurd hs h⟩
    · exact ⟨r, hr, fun _ => answers_of_responseFits hcmd hfits r⟩

end

/-- A read of four bytes, as it is received. -/
def readRequest (masterId : BitVec 16) : Packet where
  hdr := { cmd := Cmd.read, len := 38, id := 7, flags := 0, dev := 1 }
  mem := Busaccess.masterId.put masterId (Busaccess.len.put 4 fun _ => 0)
  known _ := true

theorem answered_readRequest : Answered {} 100 (some fun _ => (fun _ => 0xa5, .ok)) (fun _ => 0) (readRequest 1) 38 :=
  (answered_iff (.inl rfl)).2 ⟨fun _ => by decide, .inr ⟨.inr (by decide), fun _ => by decide⟩⟩

/-- A read with the master id `0xffff` in the old layout, as `rp_encode_read` encodes it. -/
theorem not_answered_masterId : ¬ ∀ (peer : PeerCaps) (now : BitVec 64) (dev : Option (Payload → Image × Response)) (m₀ request : Image)
    (k : Packet) (used : ℕ), decodePayload (receive request) = .ok (k, used) → k.hdr.cmd = Cmd.read ∨ k.hdr.cmd = Cmd.write →
      Answered peer now dev m₀ k used := by
  intro h
  let a : EncodeBusaccessIn := ⟨Cmd.read, 7, 0, 1, 0, 0xffff, 0x1000, 0, 4, 0, 4, 0⟩
  have hm : EncodedBusaccess a (a.hdrLen {}) (a.sentAttr {}) (encodeCommon a (a.hdrLen {}) (a.sentAttr {}) fun _ => 0) :=
    encodedBusaccess_encodeCommon ..
  have hsent := decode_sent (fun _ => 0) (fun _ => 0) (.inl rfl) hm
  obtain ⟨k, used, hdec⟩ := hsent.1 (show a.headerSize {} ≤ (a.hdrLen {}).toNat + Hdr.size by decide)
  obtain ⟨-, -, hk⟩ := hsent.2 k used hdec
  have hcmd : k.hdr.cmd = Cmd.read := by rw [hk.hdr]
  obtain ⟨r, -, hans⟩ := h {} 0 none (fun _ => 0) _ k used hdec (.inl hcmd)
  obtain ⟨wire, k', used', hwire, hdec', -⟩ := hans fun hs => absurd (hcmd.symm.trans hs.1) (by decide)
  exact (responseFits_of_decode (.inl hcmd) hwire hdec').1.elim Bool.false_ne_true fun hid => hid (by rw [hk.masterId]; rfl)

end LibSystemCTLM.RemotePort
