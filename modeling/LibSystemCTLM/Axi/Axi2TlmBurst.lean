import LibSystemCTLM.Axi.Axi2TlmOrder
import LibSystemCTLM.Foundation.Bursts
import LibSystemCTLM.Tlm.Payload

/-!
# The payloads of `axi2tlm_bridge`

An AXI slave that collects the beats of a write burst in one TLM payload, and spreads the payload of
a read over the beats of a burst (`axi2tlm-bridge.h`): the constructor of `Transaction`, `FillData`,
`GetData` and the loops over the beats around them.

## The model

The buffers of a payload start out with whatever the memory held (`Buffers`). A loop over the lanes
of a beat is a fold over their numbers. `WriteOk` and `ReadOk` say what the two directions are for:
the payload of a write burst writes what the strobed lanes of its beats write, as AXI reads them, and
the active lanes of a read burst carry bytes of the payload at their addresses, in order.

## Honest scope

The address channels have a line for each bit of an address. Barriers and the other ACE transactions
without data are no bursts. Reset, the handshakes and the attributes no byte depends on are left out.
The `wrap` attribute does not change a payload's addresses.
-/

namespace LibSystemCTLM.Axi2Tlm

open Foundation Tlm

/-- The width of the data bus and the version. `2 ^ busBits` is `DATA_BUS_BYTES`. -/
structure Config where
  busBits : ℕ
  busBits_le : busBits ≤ 7
  proto : Axi.Protocol

/-- `DATA_BUS_BYTES`. -/
def Config.dataBusBytes (cfg : Config) : ℕ := 2 ^ cfg.busBits

/-- An address phase, with beats no wider than the bus. -/
structure AddressPhase (cfg : Config) where
  burstType : BurstType
  address : Addr
  axsize : ℕ
  axlen : ℕ
  axsize_le : axsize ≤ cfg.busBits
  axlen_lt : axlen < cfg.proto.maxBurstLength

/-- The bytes and the byte enables of a new payload. -/
structure Buffers where
  data : ℕ → Byte
  be : ℕ → Byte

/-- `TLM_BYTE_DISABLED`. -/
def byteDisabled : Byte := 0

/-- `Transaction`. -/
structure Transaction where
  gp : GenericPayload
  burstWidth : ℕ
  burstType : BurstType
  burstLen : ℕ
  beat : ℕ := 1
  dataIdx : ℕ := 0

section Model

variable (cfg : Config)

/-- What AXI reads in the address phase. -/
def AddressPhase.burst {cfg : Config} (p : AddressPhase cfg) : Burst :=
  ⟨p.burstType, p.address.toNat, 2 ^ p.axsize, p.axlen + 1⟩

/-- `Align`. -/
def align (addr : Addr) (alignTo : ℕ) : ℕ := addr.toNat / alignTo * alignTo

/-- `GetDataLen` of an address, the aligned address, the bytes of a beat and the number of beats. -/
def getDataLen (address alignedAddress numberBytes burstLen : ℕ) : ℕ :=
  numberBytes - (address - alignedAddress) + (burstLen - 1) * numberBytes

/-- The constructor of `Transaction`, as the address phases call it. -/
def Transaction.ofPhase {cfg : Config} (cmd : Command) (withBe : Bool) (buf : Buffers) (p : AddressPhase cfg) : Transaction :=
  let numberBytes := 2 ^ p.axsize
  let burstLen := p.axlen + 1
  let dataLen :=
    match p.burstType with
    | .fixed => burstLen * cfg.dataBusBytes
    | _ => getDataLen p.address.toNat (align p.address numberBytes) numberBytes burstLen
  { gp :=
      { command := cmd
        address := if p.burstType = .fixed then BitVec.ofNat 64 (align p.address cfg.dataBusBytes) else p.address
        data := buf.data
        dataLength := dataLen
        byteEnable := if withBe then (List.range dataLen).map buf.be else []
        streamingWidth :=
          match p.burstType with
          | .incr => dataLen
          | .fixed => cfg.dataBusBytes
          | .wrap => numberBytes * burstLen }
    burstWidth := numberBytes
    burstType := p.burstType
    burstLen := burstLen }

namespace Transaction

variable (tr : Transaction)

/-- `IncBeat`. -/
def incBeat : Transaction := { tr with beat := tr.beat + 1 }

/-- The loop body of `FillData`: lane `i` of a beat. -/
def fillLane (beat : Beat Byte) (i : ℕ) : Transaction :=
  if tr.dataIdx < tr.gp.dataLength then
    if beat.strb i = true then
      { tr with
        gp := { tr.gp with byteEnable := tr.gp.byteEnable.set tr.dataIdx byteEnabled, data := Function.update tr.gp.data tr.dataIdx (beat.data i) }
        dataIdx := tr.dataIdx + 1 }
    else { tr with gp := { tr.gp with byteEnable := tr.gp.byteEnable.set tr.dataIdx byteDisabled }, dataIdx := tr.dataIdx + 1 }
  else tr

/-- The first lane `FillData` looks at. -/
def firstLane : ℕ := if tr.beat = 1 then tr.gp.address.toNat - align tr.gp.address cfg.dataBusBytes else 0

/-- `FillData`. -/
def fillData (beat : Beat Byte) : Transaction :=
  (List.range' (tr.firstLane cfg) (cfg.dataBusBytes - tr.firstLane cfg)).foldl (fun tr i => tr.fillLane beat i) tr

/-- `TryDropBE`. -/
def tryDropBE : Transaction :=
  if tr.gp.byteEnable.all (· = byteEnabled) = true then { tr with gp := { tr.gp with byteEnable := [] } } else tr

/-- What `write_data_phase` makes of the beats of a burst. -/
def writeBeats (beats : List (Beat Byte)) : Transaction :=
  (beats.foldl (fun tr beat => (tr.fillData cfg beat).incBeat) tr).tryDropBE

/-- The lanes of a beat that `GetData` sets, from the lower lane up to before the second. -/
def lanes : ℕ × ℕ :=
  let address := tr.gp.address.toNat
  let alignedAddress := align tr.gp.address tr.burstWidth
  if tr.burstType = .fixed then (0, cfg.dataBusBytes)
  else if tr.beat = 1 then
    (address - alignDown address cfg.dataBusBytes, alignedAddress + (tr.burstWidth - 1) - alignDown address cfg.dataBusBytes + 1)
  else
    let address := (alignedAddress + (tr.beat - 1) * tr.burstWidth) % 2 ^ 64
    let lowerByteLane := address - alignDown address cfg.dataBusBytes
    (lowerByteLane, lowerByteLane + (tr.burstWidth - 1) + 1)

/-- The loop body of `GetData`: lane `i`, from what the lanes carried and the place in the payload. -/
def getLane (s : (ℕ → Byte) × ℕ) (i : ℕ) : (ℕ → Byte) × ℕ :=
  if (tr.lanes cfg).1 ≤ i ∧ i < (tr.lanes cfg).2 then (Function.update s.1 i (tr.gp.data s.2), s.2 + 1) else s

/-- `GetData`. -/
def getData (rdata : ℕ → Byte) : (ℕ → Byte) × Transaction :=
  let s := (List.range cfg.dataBusBytes).foldl (tr.getLane cfg) (rdata, tr.dataIdx)
  (s.1, { tr with dataIdx := s.2 })

/-- The loop of `read_data_phase`, for the beats that are left: what `rdata` carries in each. -/
def readBeats : ℕ → Transaction → (ℕ → Byte) → List (ℕ → Byte)
  | 0, _, _ => []
  | left + 1, tr, rdata =>
    let (rdata, tr) := tr.getData cfg rdata
    rdata :: readBeats left tr.incBeat rdata

end Transaction

/-- A write burst: which lanes are strobed in which beat, only active ones among them. -/
structure WriteBurst extends AddressPhase cfg where
  strobe : ℕ → ℕ → Bool
  active : ∀ n l, strobe n l = true → toAddressPhase.burst.Active cfg.dataBusBytes n l

/-- The beats of a write burst that carry these bytes. -/
def WriteBurst.beats {cfg : Config} (w : WriteBurst cfg) (data : ℕ → ℕ → Byte) : List (Beat Byte) :=
  (List.range' 0 (w.axlen + 1)).map fun n => ⟨data n, w.strobe n⟩

/-- Whatever bytes the lanes carry, the payload writes what AXI makes of the strobed ones. -/
def WriteOk (w : WriteBurst cfg) : Prop :=
  ∀ (buf : Buffers) (data : ℕ → ℕ → Byte),
    ((Transaction.ofPhase .write true buf w.toAddressPhase).writeBeats cfg (w.beats data)).gp.writes =
      (w.burst.writes cfg.dataBusBytes (w.beats data)).map (Prod.map (BitVec.ofNat 64) id)

/-- Whatever bytes the target puts in the payload and the lanes carried before, the active lanes carry
bytes of the payload, each at its address, in the order of the payload. -/
def ReadOk (p : AddressPhase cfg) : Prop :=
  ∀ (buf : Buffers) (rdata : ℕ → Byte),
    let tr := Transaction.ofPhase .read false buf p
    let beats := (Transaction.readBeats cfg (p.axlen + 1) tr rdata).map fun lanes => (⟨lanes, fun _ => true⟩ : Beat Byte)
    ((p.burst.writes cfg.dataBusBytes beats).map (Prod.map (BitVec.ofNat 64) id)).Sublist
      ((List.range tr.gp.dataLength).map fun k => (tr.gp.byteAddr k, tr.gp.data k))

end Model

end LibSystemCTLM.Axi2Tlm
