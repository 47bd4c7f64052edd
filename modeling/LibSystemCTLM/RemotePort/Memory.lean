import LibSystemCTLM.RemotePort.Proto

/-!
# Memory accesses over the remote port

`remoteport_tlm_memory_slave` turns a TLM transaction into a bus-access packet and sends it, its
data and its byte enables; `remoteport_tlm_memory_master` on the other side makes a transaction of
the packet, and answers.

## The model

A transaction is a `Payload`: the fields of `tlm_generic_payload` and of the two extensions that
either side looks at. A payload without byte enables has `byteEnableLength = 0`. What the two
sides agreed on is the `PeerCaps` each has of the other. The target behind the master is a function
from the transaction to the data it leaves in the buffer and its response.

## Honest scope

Time, and which of the outstanding transactions a response belongs to, are left out: one
transaction is followed through. The rest of `genattr_extension` is not looked at by either side.
-/

namespace LibSystemCTLM.RemotePort

open Foundation

/-- `TLM_BYTE_ENABLED`. -/
def byteEnabled : BitVec 8 := 0xff

/-- `tlm_command`, as far as it is carried. -/
inductive Command where
  | read | write
  deriving DecidableEq

/-- `tlm_response_status`, as far as it is told apart. -/
inductive Response where
  | ok | addressError | genericError
  deriving DecidableEq

/-- The fields of `genattr_extension` that the remote port is to carry. -/
structure Genattr where
  masterId : BitVec 64
  secure : Bool
  eop : Bool
  posted : Bool
  ioAccess : Bool
  deriving DecidableEq

/-- A transaction. -/
structure Payload where
  command : Command
  address : BitVec 64
  data : Image
  dataLength : BitVec 32
  byteEnable : Image
  byteEnableLength : BitVec 32
  streamingWidth : BitVec 32
  genattr : Genattr
  /-- `atsattr_extension::is_phys_addr`. -/
  physAddr : Bool

namespace Payload

variable (p : Payload)

/-- Byte `i` of the data is enabled. -/
def enabled (i : ℕ) : Bool :=
  decide (p.byteEnableLength = 0) || decide (p.byteEnable (i % p.byteEnableLength.toNat) = byteEnabled)

end Payload

/-! ### The slave -/

/-- `genattr_to_rpattr`. -/
def genattrToRpattr (g : Genattr) : BitVec 64 := (if g.eop then attrEop else 0) ||| (if g.secure then attrSecure else 0)

/-- What `b_transport` of the slave encodes. -/
def busaccessIn (id dev : BitVec 32) (clk : BitVec 64) (p : Payload) : EncodeBusaccessIn where
  cmd := if p.command = .read then Cmd.read else Cmd.write
  id := id
  flags := if p.genattr.posted then flagPosted else 0
  dev := dev
  clk := clk
  -- `uint16_t master_id`
  masterId := (p.genattr.masterId.setWidth 16).setWidth 64
  addr := p.address
  attr := genattrToRpattr p.genattr ||| if p.physAddr then attrPhysAddr else 0
  size := p.dataLength
  width := 0
  streamWidth := p.streamingWidth
  byteEnableLen := p.byteEnableLength

/-- What `b_transport` of the slave writes to the socket: the packet, the data of a write, and the byte
enables. A peer that does not know byte enables gets none. -/
def slaveSend (peer : PeerCaps) (id dev : BitVec 32) (clk : BitVec 64) (m₀ : Image) (p : Payload) : Option Image :=
  if p.byteEnableLength ≠ 0 ∧ peer.busaccessExtByteEn = false then none
  else (encodeBusaccess peer (busaccessIn id dev clk p) m₀).map fun (m, n) =>
    wireImage n (if p.command = .write then p.dataLength.toNat else 0) m p.data p.byteEnable

/-- The end of `b_transport` of the slave for a read: the data of the response is copied to the initiator's
buffer, where it is enabled. -/
def slaveRead (p : Payload) (k : Packet) : Image := fun i =>
  if i < p.dataLength.toNat then
    if p.byteEnableLength ≠ 0 then
      if p.byteEnable (i % p.byteEnableLength.toNat) = byteEnabled then k.mem (busaccessRxDataptr k + i) else p.data i
    else k.mem (busaccessRxDataptr k + i)
  else p.data i

/-! ### The master -/

/-- `rp_bus_access`: the transaction of a packet, with its data. The width has to be left open. -/
def rpBusAccess (k : Packet) (cmd : Command) (data : Image) (len : BitVec 32) : Option Payload :=
  if Busaccess.width.get k.mem = 0 then
    some {
      command := cmd
      address := Busaccess.addr.get k.mem
      data := data
      dataLength := len
      byteEnable := fun _ => 0
      byteEnableLength := 0
      streamingWidth := Busaccess.streamWidth.get k.mem
      genattr := {
        masterId := (Busaccess.masterId.get k.mem).setWidth 64
        secure := decide (Busaccess.attributes.get k.mem &&& attrSecure ≠ 0)
        eop := decide (Busaccess.attributes.get k.mem &&& attrEop ≠ 0)
        posted := decide (k.hdr.flags &&& flagPosted ≠ 0)
        ioAccess := decide (Busaccess.attributes.get k.mem &&& attrIOAccess ≠ 0) }
      physAddr := false }
  else none

/-- `rp_process` and `cmd_write`, or `cmd_read`, of a bus access: the transaction that is issued. All that
follows the packet is the data of a write. -/
def masterIssue (wire : Image) : Option Payload :=
  match decodePayload (receive wire) with
  | .error _ => none
  | .ok (k, used) =>
    if k.hdr.cmd = Cmd.write then
      rpBusAccess k .write (fun i => k.mem (Hdr.size + used + i)) (k.hdr.len - BitVec.ofNat 32 used)
    else rpBusAccess k .read (fun _ => 0) (Busaccess.len.get k.mem)

/-- `RP_RESP_OK` and the others. -/
def rpResp : Response → BitVec 64
  | .ok => 0
  | .genericError => 1
  | .addressError => 2

/-- `rp_encode_busaccess_in_rsp_init`, and what `cmd_read` puts into it. -/
def responseIn (clk : BitVec 64) (resp : Response) (k : Packet) : EncodeBusaccessIn where
  cmd := k.hdr.cmd
  id := k.hdr.id
  flags := k.hdr.flags ||| flagResponse
  dev := k.hdr.dev
  clk := clk
  masterId := (Busaccess.masterId.get k.mem).setWidth 64
  addr := Busaccess.addr.get k.mem
  attr := rpResp resp <<< 8
  size := Busaccess.len.get k.mem
  width := Busaccess.width.get k.mem
  streamWidth := Busaccess.streamWidth.get k.mem
  byteEnableLen := 0

/-- `rp_busaccess_tx_dataptr`. -/
def busaccessTxDataptr (peer : PeerCaps) : ℕ := if peer.busaccessExtBase then Busaccess.sizeExt else Busaccess.size

/-- `cmd_read`: the response to a read. The target has left its data where the encoder will say. -/
def masterRespond (peer : PeerCaps) (clk : BitVec 64) (target : Payload → Image × Response) (m₀ wire : Image) : Option Image :=
  match decodePayload (receive wire) with
  | .error _ => none
  | .ok (k, _) => do
    let q ← rpBusAccess k .read (fun _ => 0) (Busaccess.len.get k.mem)
    let r := target q
    let (m, n) ← encodeBusaccess peer (responseIn clk r.2 k) fun i =>
      if busaccessTxDataptr peer ≤ i ∧ i < busaccessTxDataptr peer + q.dataLength.toNat then r.1 (i - busaccessTxDataptr peer) else m₀ i
    return fun i => if i < n then m i else 0

/-- A read from end to end: what the initiator finds in its buffer. A posted read comes back before there
is a response. -/
def readResult (peer peer' : PeerCaps) (id dev : BitVec 32) (clk clk' : BitVec 64) (target : Payload → Image × Response)
    (m₀ m₁ : Image) (p : Payload) : Option Image :=
  if p.genattr.posted then none
  else do
    let wire ← slaveSend peer id dev clk m₀ p
    let answer ← masterRespond peer' clk' target m₁ wire
    match decodePayload (receive answer) with
    | .error _ => none
    | .ok (k, _) => some (slaveRead p k)

end LibSystemCTLM.RemotePort
