import LibSystemCTLM.Axi.Axi2TlmOrder
import LibSystemCTLM.Foundation.Bursts
import LibSystemCTLM.Tlm.Payload

/-!
# The write data phase of `tlm2axi_bridge`

An AXI master that turns TLM payloads into bursts (`tlm2axi-bridge.h`): the burst type and the
number of beats of a payload, what `Validate` accepts, the signals of the write address channel and
the beats of the write data channel.

## The model

`Transaction.ofPayload` is the constructor; a payload for which `SetupBurstType` reports an error
has none. `dataLoop` is the loop of `write_data_phase`, bounded by a fuel, so that it ends is
something to prove; `Emits` says that it does and with which beats. The signals of a beat are lanes
of bytes, each with its strobe, and the `wlast` next to them.

`Delivers` is what the phase is for: as many beats as the address channel announced, `wlast` on the
last of them, and the lanes, read as AXI reads them, write the payload.

## Honest scope

`b_transport` is the bridge without its aligner. The address channel has a line for each bit of an
address. Reset, which aborts the phase, the handshakes and the signals that no beat depends on are
left out. The `wrap` attribute does not change a payload's addresses.
-/

namespace LibSystemCTLM.Tlm2Axi

open Foundation Tlm

/-- The template parameters and the version the beats depend on. `2 ^ busBits` is `DATA_BUS_BYTES`. -/
structure Config where
  busBits : ℕ
  busBits_le : busBits ≤ 7
  proto : Axi.Protocol
  axLenWidth : ℕ
  /-- Each length up to `m_maxBurstLength` fits in `AxLEN`. -/
  axLen_fits : proto.maxBurstLength ≤ 2 ^ axLenWidth

/-- `DATA_BUS_BYTES`. -/
def Config.dataBusBytes (cfg : Config) : ℕ := 2 ^ cfg.busBits

/-- The fields of `genattr_extension` that are read, with the values its constructor sets. `get_snoop`
is kept as both codes it stands for. -/
structure Genattr where
  wrap : Bool := false
  burstWidth : ℕ := 0
  isReadTx : Bool := true
  domain : Ace.Domain := .nonSharable
  arsnoop : Ace.AR := .readNoSnoop
  awsnoop : Ace.AW := .writeNoSnoop
  barrier : Bool := false
  deriving DecidableEq

/-- `Transaction`. -/
structure Transaction where
  gp : GenericPayload
  genattr : Genattr
  burstType : BurstType
  numBeats : ℕ

/-- The signals of a write data beat. -/
structure WriteBeat extends Beat Byte where
  last : Bool

section Model

variable (cfg : Config)

/-- `GetBurstWidth`. -/
def getBurstWidth (g : Genattr) : ℕ := if g.burstWidth = 0 then cfg.dataBusBytes else g.burstWidth

/-- `SetupBurstType`: the burst type, and the attributes with the burst width it may set. -/
def setupBurstType (gp : GenericPayload) (g : Genattr) : Option (BurstType × Genattr) :=
  let streamingWidth := gp.streamingWidth
  let datalen := gp.dataLength
  if streamingWidth = datalen ∧ g.wrap = true then some (.wrap, g)
  else if datalen ≤ streamingWidth then some (.incr, g)
  else if streamingWidth = cfg.dataBusBytes then some (.fixed, g)
  else if streamingWidth < cfg.dataBusBytes ∧ streamingWidth ≤ g.burstWidth then some (.fixed, g)
  else if streamingWidth < cfg.dataBusBytes ∧ g.burstWidth = 0 then
    -- `streaming_width &= ~0x1`
    some (.fixed, { g with burstWidth := if 1 < streamingWidth then streamingWidth / 2 * 2 else streamingWidth })
  else none

/-- `SetupNumBeats`, in `unsigned int`s. -/
def setupNumBeats (gp : GenericPayload) (g : Genattr) (burstType : BurstType) : ℕ :=
  let address := gp.address.toNat
  let burstWidth := getBurstWidth cfg g
  let alignment := address - address / burstWidth * burstWidth
  if burstType = .fixed then (gp.dataLength + (burstWidth - alignment) - 1) % 2 ^ 32 / (burstWidth - alignment)
  else ((gp.dataLength + alignment) % 2 ^ 32 + burstWidth - 1) % 2 ^ 32 / burstWidth

/-- The constructor of `Transaction`. -/
def Transaction.ofPayload (gp : GenericPayload) (g : Genattr) : Option Transaction :=
  (setupBurstType cfg gp g).map fun (burstType, g) => ⟨gp, g, burstType, setupNumBeats cfg gp g burstType⟩

namespace Transaction

variable (tr : Transaction)

/-- `IsIgnoreWrite`. -/
def isIgnoreWrite : Bool := decide (tr.gp.command = .ignore) && !tr.genattr.isReadTx

/-- `IsEvict`. -/
def isEvict : Bool := tr.isIgnoreWrite && Axi.Transaction.isEvictSnoop tr.genattr.domain tr.genattr.awsnoop

/-- `IsBarrier`. -/
def isBarrier : Bool := decide (tr.gp.command = .ignore) && tr.genattr.barrier

/-- `IsWriteBarrier`. -/
def isWriteBarrier : Bool := tr.isIgnoreWrite && tr.genattr.barrier

/-- `HasSingleRdDataTransfer`. -/
def hasSingleRdDataTransfer : Bool :=
  decide (tr.gp.command = .ignore) && tr.genattr.isReadTx &&
    Ace.hasSingleRdDataTransferSnoop tr.genattr.domain tr.genattr.arsnoop tr.genattr.barrier

/-- `hasData`. -/
def hasData : Bool := !(cfg.proto.isAce && (tr.isBarrier || tr.isEvict))

/-- `IsRead`. -/
def isRead : Bool := cfg.proto.isAce && tr.hasSingleRdDataTransfer || tr.gp.isRead

/-- `IsWrite`. -/
def isWrite : Bool := cfg.proto.isAce && (tr.isEvict || tr.isWriteBarrier) || tr.gp.isWrite

/-- The `widths` of `ValidateBurstWidth`. -/
def widths : List ℕ := [1, 2, 4, 8, 16, 32, 64, 128]

/-- `Validate`. -/
def validate : Bool :=
  decide (tr.gp.dataLength ≠ 0) && decide (tr.gp.streamingWidth ≠ 0) && decide (getBurstWidth cfg tr.genattr ∈ widths) &&
    decide (tr.numBeats ≤ cfg.proto.maxBurstLength) && (tr.isRead cfg || tr.isWrite cfg)

/-- `awlen`. -/
def awlen : ℕ :=
  if cfg.proto.isAce && tr.genattr.barrier then 0 else (tr.numBeats + 2 ^ 32 - 1) % 2 ^ 32 % 2 ^ cfg.axLenWidth

/-- What the write address channel announces. `awsize` stands for its number of bytes. -/
def burst : Burst := ⟨tr.burstType, tr.gp.address.toNat, getBurstWidth cfg tr.genattr, tr.awlen cfg + 1⟩

/-- `prepare_wbeat` of beat `beat`, counted from one: the signals and the bytes it takes. -/
def prepareWbeat (beat offset dataOffset : ℕ) : WriteBeat × ℕ :=
  let gp := tr.gp
  let streamingWidth := gp.streamingWidth
  let burstWidth := getBurstWidth cfg tr.genattr
  let addr := gp.address + BitVec.ofNat 64 (offset % streamingWidth)
  let len := gp.dataLength - dataOffset
  -- `bitoffset / 8`: what `addr * 8` overflows by is a multiple of the bus
  let byteOffset := addr.toNat % cfg.dataBusBytes
  let maxlen := min (cfg.dataBusBytes - byteOffset) (streamingWidth - offset % streamingWidth)
  let wlen := min (min len maxlen) burstWidth
  let wlen :=
    if tr.burstType = .fixed ∨ beat = 1 then min wlen (burstWidth - (addr.toNat &&& (burstWidth - 1))) else wlen
  -- the byte that the rotation by `bitoffset / 8` brings to lane `l`
  let byteOf := fun l => (l + cfg.dataBusBytes - byteOffset) % cfg.dataBusBytes
  let strb := fun l => decide (byteOf l < wlen) && gp.enabled (byteOf l + offset)
  let data := fun l => if byteOf l < wlen then gp.data (dataOffset + byteOf l) else 0
  (⟨⟨data, strb⟩, decide (beat = tr.numBeats)⟩, wlen)

/-- The loop of `write_data_phase`, from `pos`, `addr_pos` and `m_beat` on. -/
def dataLoop : ℕ → ℕ → ℕ → ℕ → Option (List WriteBeat)
  | 0, _, _, _ => none
  | fuel + 1, pos, addrPos, beat =>
    if pos < tr.gp.dataLength then
      let (signals, d) := tr.prepareWbeat cfg beat addrPos pos
      let addrPos' := if tr.burstType = .fixed then addrPos else addrPos + d
      (dataLoop fuel (pos + d) addrPos' (beat + 1)).map (signals :: ·)
    else some []

/-- The write data phase ends, having driven these beats. -/
def Emits (beats : List WriteBeat) : Prop :=
  if tr.hasData cfg = true then ∃ fuel, tr.dataLoop cfg fuel 0 0 1 = some beats else beats = []

/-- The beats are those announced, the last one is marked, and they write the payload. -/
structure Delivers (beats : List WriteBeat) : Prop where
  announced : beats.length = tr.awlen cfg + 1
  last : ∀ n beat, beats[n]? = some beat → (beat.last = true ↔ n + 1 = beats.length)
  writes : ((tr.burst cfg).writes cfg.dataBusBytes (beats.map (·.toBeat))).map (Prod.map (BitVec.ofNat 64) id) = tr.gp.writes

end Transaction

/-- The bridge accepts the payload and sends it on the write channels. -/
def Accepts (gp : GenericPayload) (g : Genattr) : Prop :=
  ∃ tr, Transaction.ofPayload cfg gp g = some tr ∧ tr.validate cfg = true ∧ tr.isRead cfg = false

/-- Whatever bytes the payload has, its write data phase ends and delivers them. -/
def DataPhaseOk (gp : GenericPayload) (g : Genattr) : Prop :=
  ∀ data, ∃ tr beats, Transaction.ofPayload cfg { gp with data := data } g = some tr ∧ tr.Emits cfg beats ∧ tr.Delivers cfg beats

end Model

end LibSystemCTLM.Tlm2Axi
