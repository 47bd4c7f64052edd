import LibSystemCTLM.RemotePort.Decode

/-!
# The other commands are decoded as they were encoded

What the encoders of `remote-port-proto.c` make of a hello, an interrupt, a synchronisation and an address
translation, and what `rp_decode_payload` makes of that (`Returns`). A hello comes back with its capabilities if
their number fits in its field, interrupts and synchronisations always do (`returns_iff`).

An address translation never does: the decoder leaves its timestamp in network byte order and reports that it
has used no byte of the payload. The other fields are right, but for a result of more than 32 bits, which the
encoder cuts (`decodeAts_encodeAts`). A configuration packet has neither an encoder nor a decoder.

## Honest scope

The reserved words at the end of `struct rp_pkt_ats` and `struct rp_capabilities` are not written by the
encoders and are left out.
-/

namespace LibSystemCTLM.RemotePort

open Foundation

/-! ### Encoding -/

/-- `rp_encode_hello_caps`: the packet, `caps_out`, and the size of the packet. -/
def encodeHelloCaps (id dev : BitVec 32) (versionMajor versionMinor : BitVec 16) (caps : List (BitVec 32)) (m : Image) :
    Image × List (BitVec 32) × ℕ :=
  let psize := Hello.size + 4 * caps.length
  (putNet Hello.capsLen (BitVec.ofNat 16 caps.length) (putNet Hello.capsOffset (BitVec.ofNat 32 Hello.size) (putNet Hello.minor versionMinor
    (putNet Hello.major versionMajor (encodeHdr Cmd.hello id dev (BitVec.ofNat 32 (psize - Hdr.size)) 0 m)))), caps.map bswap, Hello.size)

/-- `sizeof(struct rp_pkt_interrupt)`. -/
def Interrupt.size : ℕ := 41

/-- `rp_encode_interrupt_f`. -/
def encodeInterruptF (id dev : BitVec 32) (clk : BitVec 64) (line : BitVec 32) (vector : BitVec 64) (val : BitVec 8) (flags : BitVec 32)
    (m : Image) : Image × ℕ :=
  (Interrupt.val.put val (putNet Interrupt.line line (putNet Interrupt.vector vector (putNet Interrupt.timestamp clk
    (encodeHdr Cmd.interrupt id dev (BitVec.ofNat 32 (Interrupt.size - Hdr.size)) flags m)))), Interrupt.size)

/-- `rp_encode_interrupt`. -/
def encodeInterrupt (id dev : BitVec 32) (clk : BitVec 64) (line : BitVec 32) (vector : BitVec 64) (val : BitVec 8) (m : Image) : Image × ℕ :=
  encodeInterruptF id dev clk line vector val 0 m

/-- `sizeof(struct rp_pkt_ats)`. -/
def Ats.size : ℕ := 88

/-- `rp_encode_ats_common`. -/
def encodeAtsCommon (cmd id dev : BitVec 32) (clk attr addr len result : BitVec 64) (flags : BitVec 32) (m : Image) : Image × ℕ :=
  (putNet Ats.result (result.setWidth 32) (putNet Ats.len len (putNet Ats.addr addr (putNet Ats.attributes attr (putNet Ats.timestamp clk
    (encodeHdr cmd id dev (BitVec.ofNat 32 (Ats.size - Hdr.size)) flags m))))), Ats.size)

/-- `rp_encode_ats_req`. -/
def encodeAtsReq (id dev : BitVec 32) (clk attr addr len result : BitVec 64) (flags : BitVec 32) (m : Image) : Image × ℕ :=
  encodeAtsCommon Cmd.atsReq id dev clk attr addr len result flags m

/-- `rp_encode_ats_inv`. -/
def encodeAtsInv (id dev : BitVec 32) (clk attr addr len result : BitVec 64) (flags : BitVec 32) (m : Image) : Image × ℕ :=
  encodeAtsCommon Cmd.atsInv id dev clk attr addr len result flags m

/-- `sizeof(struct rp_pkt_sync)`. -/
def Sync.size : ℕ := 28

/-- `rp_encode_sync_common`. -/
def encodeSyncCommon (id dev : BitVec 32) (clk : BitVec 64) (flags : BitVec 32) (m : Image) : Image × ℕ :=
  (putNet Interrupt.timestamp clk (encodeHdr Cmd.sync id dev (BitVec.ofNat 32 (Sync.size - Hdr.size)) flags m), Sync.size)

/-- `rp_encode_sync`. -/
def encodeSync (id dev : BitVec 32) (clk : BitVec 64) (m : Image) : Image × ℕ := encodeSyncCommon id dev clk 0 m

/-- `rp_encode_sync_resp`. -/
def encodeSyncResp (id dev : BitVec 32) (clk : BitVec 64) (m : Image) : Image × ℕ := encodeSyncCommon id dev clk flagResponse m

/-- The words that are sent from an offset on. -/
def sendWords (offset : ℕ) : ℕ → List (BitVec 32) → Image → Image
  | _, [], m => m
  | i, x :: xs, m => sendWords offset (i + 1) xs ((capField offset i).put x m)

/-! ### The commands -/

/-- The packets that are no bus accesses, with what they carry. -/
inductive Message where
  | hello (id dev : BitVec 32) (versionMajor versionMinor : BitVec 16) (caps : List (BitVec 32))
  | cfg (opt : BitVec 32) (set : BitVec 8)
  | interrupt (id dev : BitVec 32) (clk : BitVec 64) (line : BitVec 32) (vector : BitVec 64) (val : BitVec 8) (flags : BitVec 32)
  | sync (id dev : BitVec 32) (clk : BitVec 64)
  | syncResp (id dev : BitVec 32) (clk : BitVec 64)
  | atsReq (id dev : BitVec 32) (clk attr addr len result : BitVec 64) (flags : BitVec 32)
  | atsInv (id dev : BitVec 32) (clk attr addr len result : BitVec 64) (flags : BitVec 32)

namespace Message

/-- The encoder of a command: what goes over the wire and its length. There is none for a configuration. -/
def encode : Message → Image → Option (Image × ℕ)
  | hello id dev versionMajor versionMinor caps, m =>
    let (m, capsOut, n) := encodeHelloCaps id dev versionMajor versionMinor caps m
    -- `rp_say_hello` writes the packet, and then the capabilities
    some (sendWords n 0 capsOut m, n + 4 * capsOut.length)
  | cfg _ _, _ => none
  | interrupt id dev clk line vector val flags, m => some (encodeInterruptF id dev clk line vector val flags m)
  | sync id dev clk, m => some (encodeSync id dev clk m)
  | syncResp id dev clk, m => some (encodeSyncResp id dev clk m)
  | atsReq id dev clk attr addr len result flags, m => some (encodeAtsReq id dev clk attr addr len result flags m)
  | atsInv id dev clk attr addr len result flags, m => some (encodeAtsInv id dev clk attr addr len result flags m)

/-- The fields of an address translation. -/
structure AtsFields (clk attr addr len result : BitVec 64) (k : Packet) : Prop where
  timestamp : Ats.timestamp.get k.mem = clk
  attributes : Ats.attributes.get k.mem = attr
  addr : Ats.addr.get k.mem = addr
  len : Ats.len.get k.mem = len
  result : (Ats.result.get k.mem).setWidth 64 = result

/-- A decoded packet has the fields of the command, in host order; `n` bytes were sent. -/
def Decoded (n : ℕ) (k : Packet) : Message → Prop
  | hello id dev versionMajor versionMinor caps =>
    k.hdr = { cmd := Cmd.hello, len := BitVec.ofNat 32 (n - Hdr.size), id := id, flags := 0, dev := dev } ∧ Hello.major.get k.mem = versionMajor ∧
      Hello.minor.get k.mem = versionMinor ∧ (Hello.capsLen.get k.mem).toNat = caps.length ∧
      ∀ i c, caps[i]? = some c → (capField (Hello.capsOffset.get k.mem).toNat i).get k.mem = c
  | cfg _ _ => False
  | interrupt id dev clk line vector val flags =>
    k.hdr = { cmd := Cmd.interrupt, len := BitVec.ofNat 32 (n - Hdr.size), id := id, flags := flags, dev := dev } ∧
      Interrupt.timestamp.get k.mem = clk ∧ Interrupt.vector.get k.mem = vector ∧ Interrupt.line.get k.mem = line ∧
      Interrupt.val.get k.mem = val
  | sync id dev clk =>
    k.hdr = { cmd := Cmd.sync, len := BitVec.ofNat 32 (n - Hdr.size), id := id, flags := 0, dev := dev } ∧ Interrupt.timestamp.get k.mem = clk
  | syncResp id dev clk =>
    k.hdr = { cmd := Cmd.sync, len := BitVec.ofNat 32 (n - Hdr.size), id := id, flags := flagResponse, dev := dev } ∧
      Interrupt.timestamp.get k.mem = clk
  | atsReq id dev clk attr addr len result flags =>
    k.hdr = { cmd := Cmd.atsReq, len := BitVec.ofNat 32 (n - Hdr.size), id := id, flags := flags, dev := dev } ∧
      AtsFields clk attr addr len result k
  | atsInv id dev clk attr addr len result flags =>
    k.hdr = { cmd := Cmd.atsInv, len := BitVec.ofNat 32 (n - Hdr.size), id := id, flags := flags, dev := dev } ∧
      AtsFields clk attr addr len result k

/-- Decoding what was encoded gives every field back and uses all bytes of it. -/
def Returns (c : Message) (m₀ : Image) : Prop :=
  ∃ wire n k used, c.encode m₀ = some (wire, n) ∧ decodePayload (receive wire) = .ok (k, used) ∧ c.Decoded n k ∧ used + Hdr.size = n

/-- The commands that come back. -/
def Carried : Message → Prop
  | hello _ _ _ _ caps => caps.length < 2 ^ 16
  | interrupt .. | sync .. | syncResp .. => True
  | cfg .. | atsReq .. | atsInv .. => False

end Message

/-! ### The words behind a hello -/

section Words

variable {offset i n : ℕ} {m : Image} {k : Packet} {xs : List (BitVec 32)}

theorem capField_apart {j : ℕ} (h : i ≠ j) : (capField offset i).Apart (capField offset j) := by
  show offset + i * 4 + 4 ≤ offset + j * 4 ∨ offset + j * 4 + 4 ≤ offset + i * 4
  omega

theorem get_sendWords_of_le {w : ℕ} {f : Field w} (h : f.stop ≤ offset) : f.get (sendWords offset i xs m) = f.get m := by
  induction xs generalizing i m with
  | nil => rfl
  | cons x xs ih =>
    have hap : f.Apart (capField offset i) := .inl (le_trans h (Nat.le_add_right ..))
    rw [sendWords, ih, Field.get_put_of_apart hap]

/-- The words before the first that is sent. -/
theorem get_sendWords_of_lt {j : ℕ} (h : j < i) : (capField offset j).get (sendWords offset i xs m) = (capField offset j).get m := by
  induction xs generalizing i m with
  | nil => rfl
  | cons x xs ih => rw [sendWords, ih (by omega), Field.get_put_of_apart (capField_apart (by omega))]

theorem get_sendWords {j : ℕ} {x : BitVec 32} (h : xs[j]? = some x) : (capField offset (i + j)).get (sendWords offset i xs m) = x := by
  induction xs generalizing i j m with
  | nil => cases h
  | cons y xs ih =>
    cases j with
    | zero =>
      obtain rfl : y = x := Option.some.inj h
      rw [sendWords, Nat.add_zero, get_sendWords_of_lt (Nat.lt_succ_self i), Field.get_put]
    | succ j =>
      rw [sendWords, ← Nat.succ_add_eq_add_succ]
      exact ih h

/-- The loop swaps the words from `i` on, and nothing in front of them. -/
theorem decodeCaps_words {fuel : ℕ} (hoff : 30 ≤ offset) (hc : k.Covers (offset + n * 4)) (hlen : (Hello.capsLen.get k.mem).toNat = n)
    (hfuel : n ≤ fuel + i) (hi : i ≤ n) : ∃ k', decodeCaps offset fuel i k = .ok k' ∧ k'.hdr = k.hdr ∧
      (∀ {w : ℕ} (f : Field w), f.stop ≤ offset → f.get k'.mem = f.get k.mem) ∧
      ∀ j, (capField offset j).get k'.mem = if i ≤ j ∧ j < n then bswap ((capField offset j).get k.mem) else (capField offset j).get k.mem := by
  induction fuel generalizing i k with
  | zero => exact ⟨k, rfl, rfl, fun _ _ => rfl, fun j => (if_neg (by omega)).symm⟩
  | succ fuel ih =>
    have hread : k.read Hello.capsLen = .ok (Hello.capsLen.get k.mem) := hc.read ⟨by decide, by show 30 ≤ _; omega⟩
    rw [decodeCaps, hread, ok_bind]
    by_cases hlt : i < n
    · have hin : k.toHost (capField offset i) = .ok (k.swap (capField offset i)) := hc.toHost
        ⟨by show 20 ≤ offset + i * 4; omega, by show offset + i * 4 + 4 ≤ offset + n * 4; omega⟩
      have hap : ∀ {w : ℕ} (f : Field w), f.stop ≤ offset → f.Apart (capField offset i) := fun f hf => .inl (le_trans hf (Nat.le_add_right ..))
      have hcaps : Hello.capsLen.get (k.swap (capField offset i)).mem = Hello.capsLen.get k.mem := Packet.get_swap_of_apart (hap Hello.capsLen hoff) k
      obtain ⟨k', hk', hhdr, hfront, hwords⟩ := ih (hc.swap (capField offset i)) (by rw [hcaps, hlen]) (by omega) hlt
      refine ⟨k', ?_, hhdr, fun f hf => (hfront f hf).trans (Packet.get_swap_of_apart (hap f hf) k), fun j => ?_⟩
      · rw [if_pos (by omega), hin, ok_bind, hk']
      · rw [hwords j]
        rcases Nat.lt_trichotomy i j with h | rfl | h
        · rw [Packet.get_swap_of_apart (capField_apart (by omega))]
          by_cases hjn : j < n
          · rw [if_pos ⟨h, hjn⟩, if_pos ⟨h.le, hjn⟩]
          · rw [if_neg (by omega), if_neg (by omega)]
        · rw [if_neg (by omega), if_pos ⟨le_rfl, hlt⟩, Packet.get_swap]
        · rw [if_neg (by omega), if_neg (by omega), Packet.get_swap_of_apart (capField_apart (by omega))]
    · rw [if_neg (by omega)]
      exact ⟨k, rfl, rfl, fun _ _ => rfl, fun j => (if_neg (by omega)).symm⟩

end Words

/-! ### Straight packets -/

section Straight

variable {k : Packet} {m : Image}

theorem decodePayload_hello (h : k.hdr.cmd = Cmd.hello) : decodePayload k = decodeHello k >>= fun k' => pure (k', k.hdr.len.toNat) := if_pos h

theorem decodePayload_interrupt (h : k.hdr.cmd = Cmd.interrupt) :
    decodePayload k = decodeInterrupt k >>= fun k' => pure (k', k.hdr.len.toNat) := by
  unfold decodePayload
  rw [h]
  rfl

theorem decodePayload_sync (h : k.hdr.cmd = Cmd.sync) :
    decodePayload k = k.toHost Interrupt.timestamp >>= fun k' => pure (k', k.hdr.len.toNat) := by
  unfold decodePayload
  rw [h]
  rfl

theorem decodePayload_ats (h : k.hdr.cmd = Cmd.atsReq ∨ k.hdr.cmd = Cmd.atsInv) :
    decodePayload k = decodeAts k >>= fun k' => pure (k', 0) := by
  unfold decodePayload
  rcases h with h | h <;> rw [h] <;> rfl

theorem decodeInterrupt_eq (hc : k.Covers Interrupt.size) : ∃ k', decodeInterrupt k = .ok k' ∧ k'.hdr = k.hdr ∧
    Interrupt.timestamp.get k'.mem = bswap (Interrupt.timestamp.get k.mem) ∧ Interrupt.vector.get k'.mem = bswap (Interrupt.vector.get k.mem) ∧
    Interrupt.line.get k'.mem = bswap (Interrupt.line.get k.mem) ∧ Interrupt.val.get k'.mem = Interrupt.val.get k.mem := by
  refine ⟨(((k.swap Interrupt.timestamp).swap Interrupt.vector).swap Interrupt.line).write Interrupt.val
    (Interrupt.val.get (((k.swap Interrupt.timestamp).swap Interrupt.vector).swap Interrupt.line).mem), ?_, rfl, ?_⟩
  · rw [decodeInterrupt, hc.toHost (by decide), ok_bind, (hc.swap _).toHost (by decide), ok_bind, ((hc.swap _).swap _).toHost (by decide), ok_bind,
      (((hc.swap _).swap _).swap _).read (by decide), ok_bind]
    rfl
  · simp (disch := decide) only [Packet.mem_write, Field.get_put, Field.get_put_of_apart, Packet.get_swap, Packet.get_swap_of_apart, and_self]

/-- The decoder of an address translation swaps the fields behind the timestamp. -/
theorem decodeAts_eq (hc : k.Covers Ats.size) : ∃ k', decodeAts k = .ok k' ∧ k'.hdr = k.hdr ∧ Ats.timestamp.get k'.mem = Ats.timestamp.get k.mem ∧
    Ats.attributes.get k'.mem = bswap (Ats.attributes.get k.mem) ∧ Ats.addr.get k'.mem = bswap (Ats.addr.get k.mem) ∧
    Ats.len.get k'.mem = bswap (Ats.len.get k.mem) ∧ Ats.result.get k'.mem = bswap (Ats.result.get k.mem) := by
  refine ⟨(((k.swap Ats.attributes).swap Ats.addr).swap Ats.len).swap Ats.result, ?_, rfl, ?_⟩
  · rw [decodeAts, hc.toHost (by decide), ok_bind, (hc.swap _).toHost (by decide), ok_bind, ((hc.swap _).swap _).toHost (by decide), ok_bind,
      (((hc.swap _).swap _).swap _).toHost (by decide)]
  · simp (disch := decide) only [Packet.get_swap, Packet.get_swap_of_apart, and_self]

/-- **An address translation, decoded**: the fields behind the timestamp are right, up to 32 bits of the result, the
timestamp is in network byte order, and no byte of the payload counts as used. -/
theorem decodeAts_encodeAts {cmd : BitVec 32} (hcmd : cmd = Cmd.atsReq ∨ cmd = Cmd.atsInv) (id dev : BitVec 32)
    (clk attr addr len result : BitVec 64) (flags : BitVec 32) (m : Image) :
    ∃ k, decodePayload (receive (encodeAtsCommon cmd id dev clk attr addr len result flags m).1) = .ok (k, 0) ∧
      k.hdr = { cmd := cmd, len := BitVec.ofNat 32 (Ats.size - Hdr.size), id := id, flags := flags, dev := dev } ∧
      Ats.timestamp.get k.mem = bswap clk ∧ Ats.attributes.get k.mem = attr ∧ Ats.addr.get k.mem = addr ∧ Ats.len.get k.mem = len ∧
      Ats.result.get k.mem = result.setWidth 32 := by
  set wire := (encodeAtsCommon cmd id dev clk attr addr len result flags m).1 with hwire
  have hhdr : decodeHdr wire = { cmd := cmd, len := BitVec.ofNat 32 (Ats.size - Hdr.size), id := id, flags := flags, dev := dev } :=
    by simp (disch := decide) only [decodeHdr, hwire, encodeAtsCommon, encodeHdr, putNet, Field.get_put, Field.get_put_of_apart, bswap_bswap]
  have hc : (receive wire).Covers Ats.size := receive_covers (by
    show _ ≤ Hdr.size + (decodeHdr wire).len.toNat
    rw [hhdr]
    exact Nat.le_refl 88)
  obtain ⟨k, hk, hkhdr, hts, hattr, haddr, hlen, hres⟩ := decodeAts_eq hc
  refine ⟨k, ?_, hkhdr.trans hhdr, ?_, ?_, ?_, ?_, ?_⟩
  · rw [decodePayload_ats (show (decodeHdr wire).cmd = _ ∨ (decodeHdr wire).cmd = _ by rw [hhdr]; exact hcmd), hk]
    rfl
  · rw [hts]
    simp (disch := decide) only [receive, hwire, encodeAtsCommon, putNet, Field.get_put, Field.get_put_of_apart]
  · rw [hattr]
    simp (disch := decide) only [receive, hwire, encodeAtsCommon, putNet, Field.get_put, Field.get_put_of_apart, bswap_bswap]
  · rw [haddr]
    simp (disch := decide) only [receive, hwire, encodeAtsCommon, putNet, Field.get_put, Field.get_put_of_apart, bswap_bswap]
  · rw [hlen]
    simp (disch := decide) only [receive, hwire, encodeAtsCommon, putNet, Field.get_put, Field.get_put_of_apart, bswap_bswap]
  · rw [hres]
    simp (disch := decide) only [receive, hwire, encodeAtsCommon, putNet, Field.get_put, bswap_bswap]

theorem decodeHello_eq {n : ℕ} (hlen : k.hdr.len.toNat = 12 + 4 * n) (hc : k.Covers (Hello.size + n * 4))
    (hoff : bswap (Hello.capsOffset.get k.mem) = BitVec.ofNat 32 Hello.size) (hn : (bswap (Hello.capsLen.get k.mem)).toNat = n) :
    ∃ k', decodeHello k = .ok k' ∧ k'.hdr = k.hdr ∧ Hello.major.get k'.mem = bswap (Hello.major.get k.mem) ∧
      Hello.minor.get k'.mem = bswap (Hello.minor.get k.mem) ∧ Hello.capsOffset.get k'.mem = BitVec.ofNat 32 Hello.size ∧
      (Hello.capsLen.get k'.mem).toNat = n ∧
      ∀ j < n, (capField Hello.size j).get k'.mem = bswap ((capField Hello.size j).get k.mem) := by
  have hsize : Hello.size = 32 := rfl
  have hin : ∀ {w : ℕ} (f : Field w) {k : Packet}, k.Covers (Hello.size + n * 4) → 20 ≤ f.off ∧ f.stop ≤ 32 → k.toHost f = .ok (k.swap f) :=
    fun f _ h hf => h.toHost ⟨hf.1, by omega⟩
  set k₄ := (((k.swap Hello.major).swap Hello.minor).swap Hello.capsOffset).swap Hello.capsLen with hk₄
  have hc₄ : k₄.Covers (Hello.size + n * 4) := (((hc.swap _).swap _).swap _).swap _
  have hget : Hello.major.get k₄.mem = bswap (Hello.major.get k.mem) ∧ Hello.minor.get k₄.mem = bswap (Hello.minor.get k.mem) ∧
      Hello.capsOffset.get k₄.mem = bswap (Hello.capsOffset.get k.mem) ∧ Hello.capsLen.get k₄.mem = bswap (Hello.capsLen.get k.mem) := by
    simp (disch := decide) only [hk₄, Packet.get_swap, Packet.get_swap_of_apart, and_self]
  have hwords : ∀ j, (capField Hello.size j).get k₄.mem = (capField Hello.size j).get k.mem := fun j => by
    have hap : ∀ {v : ℕ} (g : Field v), g.stop ≤ 32 → (capField Hello.size j).Apart g := fun g hg => .inr (le_trans hg (Nat.le_add_right ..))
    rw [hk₄, Packet.get_swap_of_apart (hap _ (by decide)), Packet.get_swap_of_apart (hap _ (by decide)),
      Packet.get_swap_of_apart (hap _ (by decide)), Packet.get_swap_of_apart (hap _ (by decide))]
  have hfuel : n ≤ 2 ^ 16 + 0 := by omega
  obtain ⟨k', hk', hhdr, hfront, hcaps⟩ := decodeCaps_words (by decide) hc₄ (by rw [hget.2.2.2, hn]) hfuel (Nat.zero_le n)
  refine ⟨k', ?_, hhdr, ?_, ?_, ?_, ?_, fun j hj => ?_⟩
  · rw [decodeHello, if_neg (by omega), hin _ hc (by decide), ok_bind, hin _ (hc.swap _) (by decide), ok_bind, Packet.hdr_swap, Packet.hdr_swap,
      if_pos (by omega), hin _ ((hc.swap _).swap _) (by decide), ok_bind, hin _ (((hc.swap _).swap _).swap _) (by decide), ok_bind,
      hc₄.read ⟨by decide, le_trans (show 28 ≤ 32 by decide) (Nat.le_add_right ..)⟩, ok_bind, hget.2.2.1, hoff]
    exact hk'
  · rw [hfront _ (by decide), hget.1]
  · rw [hfront _ (by decide), hget.2.1]
  · rw [hfront _ (by decide), hget.2.2.1, hoff]
  · rw [hfront _ (by decide), hget.2.2.2, hn]
  · rw [hcaps, if_pos ⟨Nat.zero_le j, hj⟩, hwords]

end Straight

namespace Message

variable {m₀ : Image}

theorem returns_interrupt (id dev : BitVec 32) (clk : BitVec 64) (line : BitVec 32) (vector : BitVec 64) (val : BitVec 8) (flags : BitVec 32) :
    Returns (interrupt id dev clk line vector val flags) m₀ := by
  set wire := (encodeInterruptF id dev clk line vector val flags m₀).1 with hwire
  have hhdr : decodeHdr wire =
      { cmd := Cmd.interrupt, len := BitVec.ofNat 32 (Interrupt.size - Hdr.size), id := id, flags := flags, dev := dev } := by
    simp (disch := decide) only [decodeHdr, hwire, encodeInterruptF, encodeHdr, putNet, Field.get_put, Field.get_put_of_apart, bswap_bswap]
  have hc : (receive wire).Covers Interrupt.size := receive_covers (by
    show _ ≤ Hdr.size + (decodeHdr wire).len.toNat
    rw [hhdr]
    exact Nat.le_refl 41)
  obtain ⟨k, hk, hkhdr, hts, hvec, hline, hval⟩ := decodeInterrupt_eq hc
  refine ⟨wire, Interrupt.size, k, 21, rfl, ?_, ⟨hkhdr.trans hhdr, ?_, ?_, ?_, ?_⟩, rfl⟩
  · rw [decodePayload_interrupt (show (decodeHdr wire).cmd = _ by rw [hhdr]), hk, ok_bind]
    show Except.ok (k, (decodeHdr wire).len.toNat) = _
    rw [hhdr]
    rfl
  · rw [hts]
    simp (disch := decide) only [receive, hwire, encodeInterruptF, putNet, Field.get_put, Field.get_put_of_apart, bswap_bswap]
  · rw [hvec]
    simp (disch := decide) only [receive, hwire, encodeInterruptF, putNet, Field.get_put, Field.get_put_of_apart, bswap_bswap]
  · rw [hline]
    simp (disch := decide) only [receive, hwire, encodeInterruptF, putNet, Field.get_put, Field.get_put_of_apart, bswap_bswap]
  · rw [hval]
    simp only [receive, hwire, encodeInterruptF, Field.get_put]

theorem decodePayload_encodeSync (id dev : BitVec 32) (clk : BitVec 64) (flags : BitVec 32) (m : Image) :
    ∃ k, decodePayload (receive (encodeSyncCommon id dev clk flags m).1) = .ok (k, Sync.size - Hdr.size) ∧
      k.hdr = { cmd := Cmd.sync, len := BitVec.ofNat 32 (Sync.size - Hdr.size), id := id, flags := flags, dev := dev } ∧
      Interrupt.timestamp.get k.mem = clk := by
  set wire := (encodeSyncCommon id dev clk flags m).1 with hwire
  have hhdr : decodeHdr wire = { cmd := Cmd.sync, len := BitVec.ofNat 32 (Sync.size - Hdr.size), id := id, flags := flags, dev := dev } := by
    simp (disch := decide) only [decodeHdr, hwire, encodeSyncCommon, encodeHdr, putNet, Field.get_put, Field.get_put_of_apart, bswap_bswap]
  have hc : (receive wire).Covers Sync.size := receive_covers (by
    show _ ≤ Hdr.size + (decodeHdr wire).len.toNat
    rw [hhdr]
    exact Nat.le_refl 28)
  refine ⟨(receive wire).swap Interrupt.timestamp, ?_, hhdr, ?_⟩
  · rw [decodePayload_sync (show (decodeHdr wire).cmd = _ by rw [hhdr]), hc.toHost (by decide), ok_bind]
    show Except.ok (_, (decodeHdr wire).len.toNat) = _
    rw [hhdr]
    rfl
  · rw [Packet.get_swap]
    simp only [receive, hwire, encodeSyncCommon, putNet, Field.get_put, bswap_bswap (show 8 ∣ 64 by decide)]

/-- A hello whose number of capabilities fits in its field. -/
theorem returns_hello (id dev : BitVec 32) (versionMajor versionMinor : BitVec 16) {caps : List (BitVec 32)} (h : caps.length < 2 ^ 16) :
    Returns (hello id dev versionMajor versionMinor caps) m₀ := by
  have hsize : Hello.size = 32 ∧ Hdr.size = 20 := ⟨rfl, rfl⟩
  set pkt := (encodeHelloCaps id dev versionMajor versionMinor caps m₀).1 with hpkt
  have hget : ∀ {w : ℕ} (f : Field w), f.stop ≤ Hello.size → f.get (sendWords Hello.size 0 (caps.map bswap) pkt) = f.get pkt :=
    fun f hf => get_sendWords_of_le hf
  have hhdr : decodeHdr (sendWords Hello.size 0 (caps.map bswap) pkt) =
      { cmd := Cmd.hello, len := BitVec.ofNat 32 (Hello.size + 4 * caps.length - Hdr.size), id := id, flags := 0, dev := dev } := by
    rw [decodeHdr, hget _ (by decide), hget _ (by decide), hget _ (by decide), hget _ (by decide), hget _ (by decide)]
    simp (disch := decide) only [hpkt, encodeHelloCaps, encodeHdr, putNet, Field.get_put, Field.get_put_of_apart, bswap_bswap]
  have hlen : (decodeHdr (sendWords Hello.size 0 (caps.map bswap) pkt)).len.toNat = 12 + 4 * caps.length := by
    rw [hhdr, BitVec.toNat_ofNat, Nat.mod_eq_of_lt (by omega)]
    omega
  have hc : (receive (sendWords Hello.size 0 (caps.map bswap) pkt)).Covers (Hello.size + caps.length * 4) := receive_covers (by
    show _ ≤ Hdr.size + (decodeHdr _).len.toNat
    omega)
  obtain ⟨k, hk, hkhdr, hmajor, hminor, hoff, hn, hcaps⟩ := decodeHello_eq hlen hc
    (by
      refine (congrArg bswap (hget _ (by decide))).trans ?_
      simp (disch := decide) only [hpkt, encodeHelloCaps, putNet, Field.get_put, Field.get_put_of_apart, bswap_bswap])
    (by
      refine (congrArg (fun x => (bswap x).toNat) (hget _ (by decide))).trans ?_
      simp only [hpkt, encodeHelloCaps, putNet, Field.get_put, bswap_bswap (show 8 ∣ 16 by decide), BitVec.toNat_ofNat, Nat.mod_eq_of_lt h])
  refine ⟨sendWords Hello.size 0 (caps.map bswap) pkt, _, k, 12 + 4 * caps.length, rfl, ?_, ⟨?_, ?_, ?_, hn, fun i c hi => ?_⟩, ?_⟩
  · rw [decodePayload_hello (show (decodeHdr _).cmd = _ by rw [hhdr]), hk, ok_bind]
    exact congrArg (fun n => Except.ok (k, n)) hlen
  · rw [hkhdr, List.length_map]
    exact hhdr
  · rw [hmajor]
    refine (congrArg bswap (hget _ (by decide))).trans ?_
    simp (disch := decide) only [hpkt, encodeHelloCaps, putNet, Field.get_put, Field.get_put_of_apart, bswap_bswap]
  · rw [hminor]
    refine (congrArg bswap (hget _ (by decide))).trans ?_
    simp (disch := decide) only [hpkt, encodeHelloCaps, putNet, Field.get_put, Field.get_put_of_apart, bswap_bswap]
  · have hword : (caps.map bswap)[i]? = some (bswap c) := by rw [List.getElem?_map, hi]; rfl
    obtain ⟨hlt, -⟩ := List.getElem?_eq_some_iff.1 hi
    rw [hoff]
    refine (hcaps i hlt).trans ?_
    have hsent : (capField Hello.size i).get (sendWords Hello.size 0 (caps.map bswap) pkt) = bswap c := by
      rw [← get_sendWords (i := 0) (m := pkt) hword, Nat.zero_add]
    exact (congrArg bswap hsent).trans (bswap_bswap (by decide) c)
  · rw [List.length_map]
    show 12 + 4 * caps.length + Hdr.size = Hello.size + 4 * caps.length
    omega

/-- No byte of an address translation counts as used. -/
theorem not_returns_ats {c : Message} {cmd id dev : BitVec 32} {clk attr addr len result : BitVec 64} {flags : BitVec 32}
    (hcmd : cmd = Cmd.atsReq ∨ cmd = Cmd.atsInv) (hc : c.encode m₀ = some (encodeAtsCommon cmd id dev clk attr addr len result flags m₀)) :
    ¬Returns c m₀ := by
  rintro ⟨wire, n, k, used, henc, hdec, -, hused⟩
  obtain ⟨k', hdec', -⟩ := decodeAts_encodeAts hcmd id dev clk attr addr len result flags m₀
  rw [hc, Option.some.injEq] at henc
  rw [show wire = (encodeAtsCommon cmd id dev clk attr addr len result flags m₀).1 by rw [henc], hdec', Except.ok.injEq, Prod.mk.injEq] at hdec
  have hn : n = Ats.size := congrArg Prod.snd henc.symm
  have hsize : Ats.size = 88 ∧ Hdr.size = 20 := ⟨rfl, rfl⟩
  omega

/-- **The other commands.** What was encoded comes back, with all its bytes used, exactly for interrupts, synchronisations
and hellos whose number of capabilities fits in its field. -/
theorem returns_iff (c : Message) (m₀ : Image) : Returns c m₀ ↔ c.Carried := by
  cases c with
  | hello id dev versionMajor versionMinor caps =>
    refine ⟨?_, returns_hello id dev versionMajor versionMinor⟩
    rintro ⟨wire, n, k, used, -, -, ⟨-, -, -, hlen, -⟩, -⟩
    show caps.length < 2 ^ 16
    rw [← hlen]
    exact BitVec.isLt _
  | cfg opt set => exact iff_of_false (fun ⟨_, _, _, _, h, _⟩ => by cases h) fun h => h
  | interrupt id dev clk line vector val flags => exact iff_of_true (returns_interrupt id dev clk line vector val flags) trivial
  | sync id dev clk =>
    obtain ⟨k, hk, hdec⟩ := decodePayload_encodeSync id dev clk 0 m₀
    exact iff_of_true ⟨_, _, k, _, rfl, hk, hdec, rfl⟩ trivial
  | syncResp id dev clk =>
    obtain ⟨k, hk, hdec⟩ := decodePayload_encodeSync id dev clk flagResponse m₀
    exact iff_of_true ⟨_, _, k, _, rfl, hk, hdec, rfl⟩ trivial
  | atsReq id dev clk attr addr len result flags =>
    exact iff_of_false (not_returns_ats (.inl rfl) rfl) fun h => h
  | atsInv id dev clk attr addr len result flags =>
    exact iff_of_false (not_returns_ats (.inr rfl) rfl) fun h => h

/-- A translation request. -/
theorem not_returns_atsReq : ¬ ∀ (c : Message) (m₀ : Image), Returns c m₀ := by
  intro h
  have hno : ¬Returns (atsReq 1 0 0x10 1 0x1000 4096 0 0) fun _ => 0 := not_returns_ats (.inl rfl) rfl
  exact hno (h _ _)

end Message

end LibSystemCTLM.RemotePort
