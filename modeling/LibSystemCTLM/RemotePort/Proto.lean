import LibSystemCTLM.Foundation.Fields

/-!
# The remote-port protocol

The packets two simulators exchange (`remote-port-proto.h`), how they are encoded and decoded
(`remote-port-proto.c`), and what `remoteport_tlm` does with a packet it has received before it
hands it to a device (`rp_process`, `rp_cmd_hello`).

## The model

A packet is the image of its packed structs, which overlay one another, in the memory of a
little-endian machine; `be32toh` and its relatives swap bytes. The decoder works in place. A
packet that is being decoded knows which of its payload bytes there are: those that were received
behind the header, and those the decoder has itself written since. To read another byte is the
fault `outside`, and an assertion that fails is the fault `rejected`.

## Honest scope

The lookup of the device, the time keeping around a command and the reads from the socket, which
end the program when they fail, are left out. `struct rp_pkt_cfg` is never decoded.
-/

namespace LibSystemCTLM.RemotePort

open Foundation

/-! ### The packets -/

namespace Cmd

/-- `RP_CMD_hello`. -/
def hello : BitVec 32 := 1

/-- `RP_CMD_read`. -/
def read : BitVec 32 := 3

/-- `RP_CMD_write`. -/
def write : BitVec 32 := 4

/-- `RP_CMD_interrupt`. -/
def interrupt : BitVec 32 := 5

/-- `RP_CMD_sync`. -/
def sync : BitVec 32 := 6

/-- `RP_CMD_ats_req`. -/
def atsReq : BitVec 32 := 7

/-- `RP_CMD_ats_inv`. -/
def atsInv : BitVec 32 := 8

end Cmd

/-- `RP_PKT_FLAGS_response`. -/
def flagResponse : BitVec 32 := 2

/-- `RP_PKT_FLAGS_posted`. -/
def flagPosted : BitVec 32 := 4

/-- `RP_BUS_ATTR_EOP`. -/
def attrEop : BitVec 64 := 1

/-- `RP_BUS_ATTR_SECURE`. -/
def attrSecure : BitVec 64 := 2

/-- `RP_BUS_ATTR_EXT_BASE`. -/
def attrExtBase : BitVec 64 := 4

/-- `RP_BUS_ATTR_PHYS_ADDR`. -/
def attrPhysAddr : BitVec 64 := 8

/-- `RP_BUS_ATTR_IO_ACCESS`. -/
def attrIOAccess : BitVec 64 := 16

/-- `struct rp_pkt_hdr`, decoded. -/
structure Hdr where
  cmd : BitVec 32
  len : BitVec 32
  id : BitVec 32
  flags : BitVec 32
  dev : BitVec 32
  deriving DecidableEq

namespace Hdr

/-- `sizeof(struct rp_pkt_hdr)`. -/
def size : ℕ := 20

def cmdField : Field 32 := ⟨0, by decide⟩
def lenField : Field 32 := ⟨4, by decide⟩
def idField : Field 32 := ⟨8, by decide⟩
def flagsField : Field 32 := ⟨12, by decide⟩
def devField : Field 32 := ⟨16, by decide⟩

end Hdr

/-! `struct rp_pkt_hello`. -/

namespace Hello

/-- `sizeof(struct rp_pkt_hello)`. -/
def size : ℕ := 32

def major : Field 16 := ⟨20, by decide⟩
def minor : Field 16 := ⟨22, by decide⟩
def capsOffset : Field 32 := ⟨24, by decide⟩
def capsLen : Field 16 := ⟨28, by decide⟩

end Hello

/-! `struct rp_pkt_busaccess` and, behind it, what `struct rp_pkt_busaccess_ext_base` adds. -/

namespace Busaccess

/-- `sizeof(struct rp_pkt_busaccess)`. -/
def size : ℕ := 58

/-- `sizeof(struct rp_pkt_busaccess_ext_base)`. -/
def sizeExt : ℕ := 80

def timestamp : Field 64 := ⟨20, by decide⟩
def attributes : Field 64 := ⟨28, by decide⟩
def addr : Field 64 := ⟨36, by decide⟩
def len : Field 32 := ⟨44, by decide⟩
def width : Field 32 := ⟨48, by decide⟩
def streamWidth : Field 32 := ⟨52, by decide⟩
def masterId : Field 16 := ⟨56, by decide⟩
def masterId31_16 : Field 16 := ⟨58, by decide⟩
def masterId63_32 : Field 32 := ⟨60, by decide⟩
def dataOffset : Field 32 := ⟨64, by decide⟩
def nextOffset : Field 32 := ⟨68, by decide⟩
def byteEnableOffset : Field 32 := ⟨72, by decide⟩
def byteEnableLen : Field 32 := ⟨76, by decide⟩

end Busaccess

/-! `struct rp_pkt_interrupt`, of which `struct rp_pkt_sync` is the beginning. -/

namespace Interrupt

def timestamp : Field 64 := ⟨20, by decide⟩
def vector : Field 64 := ⟨28, by decide⟩
def line : Field 32 := ⟨36, by decide⟩
def val : Field 8 := ⟨40, by decide⟩

end Interrupt

/-! `struct rp_pkt_ats`. -/

namespace Ats

def timestamp : Field 64 := ⟨20, by decide⟩
def attributes : Field 64 := ⟨28, by decide⟩
def addr : Field 64 := ⟨36, by decide⟩
def len : Field 64 := ⟨44, by decide⟩
def result : Field 32 := ⟨52, by decide⟩

end Ats

/-- `caps` of `struct rp_peer_state`. -/
structure PeerCaps where
  busaccessExtBase : Bool := false
  busaccessExtByteEn : Bool := false
  wirePostedUpdates : Bool := false
  ats : Bool := false
  deriving DecidableEq

/-! ### Encoding -/

/-- A value is stored in network byte order. -/
def putNet {w : ℕ} (f : Field w) (x : BitVec w) (m : Image) : Image := f.put (bswap x) m

/-- `rp_encode_hdr`. -/
def encodeHdr (cmd id dev len flags : BitVec 32) (m : Image) : Image :=
  putNet Hdr.flagsField flags (putNet Hdr.devField dev (putNet Hdr.idField id (putNet Hdr.lenField len (putNet Hdr.cmdField cmd m))))

/-- `struct rp_encode_busaccess_in`. -/
structure EncodeBusaccessIn where
  cmd : BitVec 32
  id : BitVec 32
  flags : BitVec 32
  dev : BitVec 32
  clk : BitVec 64
  masterId : BitVec 64
  addr : BitVec 64
  attr : BitVec 64
  size : BitVec 32
  width : BitVec 32
  streamWidth : BitVec 32
  byteEnableLen : BitVec 32

/-- `rp_encode_busaccess_common`. -/
def encodeBusaccessCommon (clk : BitVec 64) (masterId : BitVec 16) (addr attr : BitVec 64) (size width streamWidth : BitVec 32)
    (m : Image) : Image :=
  putNet Busaccess.streamWidth streamWidth (putNet Busaccess.width width (putNet Busaccess.len size (putNet Busaccess.attributes attr
    (putNet Busaccess.addr addr (putNet Busaccess.masterId masterId (putNet Busaccess.timestamp clk m))))))

namespace EncodeBusaccessIn

variable (a : EncodeBusaccessIn)

/-- The packet carries data: a write request or a read response. -/
def carriesData : Bool :=
  (decide (a.cmd = Cmd.write) && decide (a.flags &&& flagResponse = 0)) || (decide (a.cmd = Cmd.read) && decide (a.flags &&& flagResponse ≠ 0))

/-- `hsize`, before the byte enables are counted. -/
def hsize : BitVec 32 := if a.carriesData then a.size else 0

/-- `ret_size`. -/
def retSize : BitVec 32 := if a.cmd = Cmd.read ∧ a.flags &&& flagResponse ≠ 0 then a.size else 0

/-- The new layout is used: the peer supports it, or a packet in it is answered. -/
def extended (peer : PeerCaps) : Bool := peer.busaccessExtBase || decide (a.attr &&& attrExtBase ≠ 0)

end EncodeBusaccessIn

/-- `UINT16_MAX`. -/
def uint16Max : BitVec 64 := 0xffff

/-- `rp_encode_busaccess`, into a packet that held `m`: the packet and the number of bytes to send of it.
The old layout asserts that the master id is a small one. -/
def encodeBusaccess (peer : PeerCaps) (a : EncodeBusaccessIn) (m : Image) : Option (Image × ℕ) :=
  if a.extended peer = false then
    if a.masterId < uint16Max then
      some (encodeBusaccessCommon a.clk (a.masterId.setWidth 16) a.addr a.attr a.size a.width a.streamWidth
        (encodeHdr a.cmd a.id a.dev (BitVec.ofNat 32 (Busaccess.size - Hdr.size) + a.hsize) a.flags m), Busaccess.size + a.retSize.toNat)
    else none
  else
    let m := putNet Busaccess.masterId31_16 ((a.masterId >>> 16).setWidth 16) m
    let m := putNet Busaccess.masterId63_32 ((a.masterId >>> 32).setWidth 32) m
    let m := putNet Busaccess.dataOffset (BitVec.ofNat 32 Busaccess.sizeExt) m
    let m := putNet Busaccess.nextOffset 0 m
    let m := putNet Busaccess.byteEnableOffset (BitVec.ofNat 32 Busaccess.sizeExt + a.hsize) m
    let m := putNet Busaccess.byteEnableLen a.byteEnableLen m
    let hsize := a.hsize + a.byteEnableLen
    some (encodeBusaccessCommon a.clk (a.masterId.setWidth 16) a.addr (a.attr ||| attrExtBase) a.size a.width a.streamWidth
      (encodeHdr a.cmd a.id a.dev (BitVec.ofNat 32 (Busaccess.sizeExt - Hdr.size) + hsize) a.flags m), Busaccess.sizeExt + a.retSize.toNat)

/-- What goes over the wire: the packet up to byte `n`, `len` bytes of data, and the byte enables. -/
def wireImage (n len : ℕ) (m data be : Image) : Image := fun p => if p < n then m p else if p < n + len then data (p - n) else be (p - n - len)

/-! ### Decoding -/

/-- Why a packet is not processed. -/
inductive Fault where
  /-- An assertion or a version check has failed. -/
  | rejected
  /-- A payload byte was read that was not received. -/
  | outside
  deriving DecidableEq

/-- A packet that is being decoded. -/
structure Packet where
  hdr : Hdr
  mem : Image
  /-- The payload bytes that there are. -/
  known : ℕ → Bool

/-- `rp_decode_hdr`. -/
def decodeHdr (m : Image) : Hdr where
  cmd := bswap (Hdr.cmdField.get m)
  len := bswap (Hdr.lenField.get m)
  id := bswap (Hdr.idField.get m)
  flags := bswap (Hdr.flagsField.get m)
  dev := bswap (Hdr.devField.get m)

namespace Packet

variable {w : ℕ} (k : Packet) (f : Field w)

/-- All bytes of a field are there. -/
def Has : Prop := ∀ i ∈ List.range f.size, k.known (f.off + i) = true

instance : Decidable (k.Has f) := inferInstanceAs (Decidable (∀ i ∈ List.range f.size, _))

/-- A field is read. -/
def read : Except Fault (BitVec w) := if k.Has f then .ok (f.get k.mem) else .error .outside

/-- A field is assigned. -/
def write (x : BitVec w) : Packet :=
  { k with mem := f.put x k.mem, known := fun p => k.known p || (decide (f.off ≤ p) && decide (p < f.stop)) }

/-- `x = be32toh(x)`, at the width of the field. -/
def toHost : Except Fault Packet := do
  let x ← k.read f
  return k.write f (bswap x)

end Packet

/-- The packet as it is received: the header is decoded, and `hdr.len` bytes follow it. -/
def receive (wire : Image) : Packet where
  hdr := decodeHdr wire
  mem := wire
  known p := decide (Hdr.size ≤ p) && decide (p < Hdr.size + (decodeHdr wire).len.toNat)

/-- The word `i` of the capabilities at an offset. -/
def capField (offset i : ℕ) : Field 32 := ⟨offset + i * 4, by decide⟩

/-- The loop over the capabilities in `rp_decode_payload`, which looks at their number again every time. -/
def decodeCaps (offset : ℕ) : ℕ → ℕ → Packet → Except Fault Packet
  | 0, _, k => .ok k
  | fuel + 1, i, k => do
    let len ← k.read Hello.capsLen
    if i < len.toNat then
      let k ← k.toHost (capField offset i)
      decodeCaps offset fuel (i + 1) k
    else .ok k

/-- `case RP_CMD_hello`. The number of capabilities is below `2 ^ 16`, whatever it is. -/
def decodeHello (k : Packet) : Except Fault Packet := do
  if k.hdr.len.toNat < 4 then .error .rejected
  else
    let k ← k.toHost Hello.major
    let k ← k.toHost Hello.minor
    if 8 ≤ k.hdr.len.toNat - 4 then
      let k ← k.toHost Hello.capsOffset
      let k ← k.toHost Hello.capsLen
      let offset ← k.read Hello.capsOffset
      decodeCaps offset.toNat (2 ^ 16) 0 k
    else return (k.write Hello.capsOffset 0).write Hello.capsLen 0

/-- The fields of a bus access that both layouts have, without the master id. -/
def baseToHost (k : Packet) : Except Fault Packet := do
  let k ← k.toHost Busaccess.timestamp
  let k ← k.toHost Busaccess.addr
  let k ← k.toHost Busaccess.attributes
  let k ← k.toHost Busaccess.len
  let k ← k.toHost Busaccess.width
  k.toHost Busaccess.streamWidth

/-- The fields that only the new layout has, without the master id. -/
def extToHost (k : Packet) : Except Fault Packet := do
  let k ← k.toHost Busaccess.dataOffset
  let k ← k.toHost Busaccess.nextOffset
  let k ← k.toHost Busaccess.byteEnableOffset
  k.toHost Busaccess.byteEnableLen

/-- `case RP_CMD_write` and `case RP_CMD_read`: the packet and the bytes used. -/
def decodeBusaccess (k : Packet) : Except Fault (Packet × ℕ) := do
  if k.hdr.len.toNat < Busaccess.size - Hdr.size then .error .rejected
  else
    let k ← baseToHost k
    let low ← k.read Busaccess.masterId
    let masterId : BitVec 64 := (bswap low).setWidth 64
    let attributes ← k.read Busaccess.attributes
    if attributes &&& attrExtBase ≠ 0 then
      if k.hdr.len.toNat < Busaccess.sizeExt - Hdr.size then .error .rejected
      else
        let mid ← k.read Busaccess.masterId31_16
        let high ← k.read Busaccess.masterId63_32
        let masterId := masterId ||| (bswap mid).setWidth 64 <<< 16 ||| (bswap high).setWidth 64 <<< 32
        let k ← extToHost k
        -- the master id is cut to the width of the field
        return (k.write Busaccess.masterId (masterId.setWidth 16), Busaccess.sizeExt - Hdr.size)
    else return (k.write Busaccess.masterId (masterId.setWidth 16), Busaccess.size - Hdr.size)

/-- `case RP_CMD_interrupt`. -/
def decodeInterrupt (k : Packet) : Except Fault Packet := do
  let k ← k.toHost Interrupt.timestamp
  let k ← k.toHost Interrupt.vector
  let k ← k.toHost Interrupt.line
  let val ← k.read Interrupt.val
  return k.write Interrupt.val val

/-- `case RP_CMD_ats_req` and `case RP_CMD_ats_inv`. -/
def decodeAts (k : Packet) : Except Fault Packet := do
  let k ← k.toHost Ats.attributes
  let k ← k.toHost Ats.addr
  let k ← k.toHost Ats.len
  k.toHost Ats.result

/-- `rp_decode_payload`: the packet in host order and the number of payload bytes used. -/
def decodePayload (k : Packet) : Except Fault (Packet × ℕ) :=
  if k.hdr.cmd = Cmd.hello then return (← decodeHello k, k.hdr.len.toNat)
  else if k.hdr.cmd = Cmd.write ∨ k.hdr.cmd = Cmd.read then decodeBusaccess k
  else if k.hdr.cmd = Cmd.interrupt then return (← decodeInterrupt k, k.hdr.len.toNat)
  else if k.hdr.cmd = Cmd.sync then return (← k.toHost Interrupt.timestamp, k.hdr.len.toNat)
  else if k.hdr.cmd = Cmd.atsReq ∨ k.hdr.cmd = Cmd.atsInv then return (← decodeAts k, 0)
  else return (k, 0)

/-- `rp_busaccess_rx_dataptr`: the offset of the data in a packet that was received. -/
def busaccessRxDataptr (k : Packet) : ℕ :=
  if Busaccess.attributes.get k.mem &&& attrExtBase ≠ 0 then (Busaccess.dataOffset.get k.mem).toNat else Busaccess.size

/-- `rp_busaccess_byte_en_ptr`: the offset of the byte enables, if there are any. -/
def busaccessByteEnPtr (k : Packet) : Except Fault (Option ℕ) :=
  let len := Busaccess.byteEnableLen.get k.mem
  let offset := Busaccess.byteEnableOffset.get k.mem
  if Busaccess.attributes.get k.mem &&& attrExtBase ≠ 0 ∧ len ≠ 0 then
    if Busaccess.sizeExt ≤ offset.toNat ∧ (offset + len).toNat ≤ k.hdr.len.toNat + Hdr.size then .ok (some offset.toNat)
    else .error .rejected
  else .ok none

/-! ### The hello -/

/-- One capability of the peer. -/
def PeerCaps.add (peer : PeerCaps) (cap : BitVec 32) : PeerCaps :=
  if cap = 1 then { peer with busaccessExtBase := true }
  else if cap = 2 then { peer with busaccessExtByteEn := true }
  else if cap = 3 then { peer with wirePostedUpdates := true }
  else if cap = 4 then { peer with ats := true }
  else peer

/-- The loop of `rp_process_caps` over the words from `i` on. -/
def addCaps (k : Packet) (offset : ℕ) : ℕ → ℕ → PeerCaps → Except Fault PeerCaps
  | 0, _, peer => .ok peer
  | n + 1, i, peer => do
    let cap ← k.read (capField offset i)
    addCaps k offset n (i + 1) (peer.add cap)

/-- `rp_process_caps`, which asserts that it is called once. -/
def processCaps (peer : PeerCaps) (k : Packet) (offset capsLen : ℕ) : Except Fault PeerCaps :=
  if peer.busaccessExtBase = true then .error .rejected else addCaps k offset capsLen 0 peer

/-- `RP_VERSION_MAJOR`. -/
def versionMajor : BitVec 16 := 4

/-- `rp_cmd_hello`. -/
def cmdHello (peer : PeerCaps) (k : Packet) : Except Fault PeerCaps := do
  let major ← k.read Hello.major
  if major ≠ versionMajor then .error .rejected
  else
    let len ← k.read Hello.capsLen
    if len ≠ 0 then
      let offset ← k.read Hello.capsOffset
      processCaps peer k offset.toNat len.toNat
    else .ok peer

/-- `rp_process` of a packet, up to where a device takes it. -/
def process (peer : PeerCaps) (wire : Image) : Except Fault (Packet × ℕ × PeerCaps) := do
  let (k, used) ← decodePayload (receive wire)
  if k.hdr.flags &&& flagResponse = 0 ∧ k.hdr.cmd = Cmd.hello then return (k, used, ← cmdHello peer k)
  else return (k, used, peer)

end LibSystemCTLM.RemotePort
