import LibSystemCTLM.Axi.Axi2TlmBursts

/-!
# The two channels of `axi2tlm_bridge`

What a transaction of the bridge carries downstream (`axi2tlm-bridge.h`): the payload and the attributes
that `read_address_phase` and `write_address_phase` build from the signals they sample, and the bytes of
the write data beats. The two directions run side by side, in any order.

## The model

A `Side` is one direction: the `Axi.Channel` of its lists and threads, and next to it what stands in each
transaction (`Tx`), by serial. A step of the bridge is a step of one side while all input ports have some
values (`Signals`). `write_address_phase` samples `arprot` where its twin does, so the protection bits of
a write are those of the read channel, whatever they are at that time.

`Issue` is what the target gets to see. The bytes of a payload that no strobe enables are what the memory
held (`Buffers`), which may differ between two runs.

`Independent` is what the channels are for: in two runs that agree on the inputs of one channel, the
transactions of that channel carry the same, one by one. Nothing is said about when they are issued.

## Honest scope

Reset is left out, and so are the responses, which go nowhere else than back.
-/

namespace LibSystemCTLM.Axi2Tlm

open Foundation Tlm
open Axi (Direction Channel)

/-! ### The signals -/

/-- The ports of an address channel. -/
structure AxSignals (cfg : Config) extends AddressPhase cfg where
  axid : BitVec 32
  axprot : BitVec 3
  axlock : BitVec 2 := 0
  axcache : BitVec 4 := 0
  axqos : BitVec 4 := 0
  axregion : BitVec 4 := 0
  arsnoop : Ace.AR := .readNoSnoop
  awsnoop : Ace.AW := .writeNoSnoop
  axdomain : Ace.Domain := .nonSharable
  axbar : BitVec 2 := 0

/-- All input ports of a request. -/
structure Signals (cfg : Config) where
  aw : AxSignals cfg
  wid : BitVec 32
  w : Beat Byte
  ar : AxSignals cfg

/-- The address channel of a direction. -/
def Signals.ax {cfg : Config} (sig : Signals cfg) : Direction → AxSignals cfg
  | .read => sig.ar
  | .write => sig.aw

/-- The signals the order depends on. -/
def AxSignals.order {cfg : Config} (x : AxSignals cfg) : Axi.AddressPhase :=
  { axid := x.axid, axaddr := x.address, axlen := x.axlen, arsnoop := x.arsnoop, awsnoop := x.awsnoop, axdomain := x.axdomain,
    axbar := x.axbar }

/-! ### The transactions -/

/-- `AXI_PROT_NS`. -/
def axiProtNS : BitVec 3 := 0b010

/-- `IsNonSecure`. -/
def isNonSecure (axProt : BitVec 3) : Bool := decide (axProt &&& axiProtNS = axiProtNS)

/-- The fields of `genattr_extension` that are set. `get_snoop` is kept as both codes it stands for. -/
structure Attributes where
  secure : Bool := true
  wrap : Bool := false
  burstWidth : ℕ := 0
  transactionId : BitVec 32 := 0
  exclusive : Bool := false
  locked : Bool := false
  bufferable : Bool := false
  modifiable : Bool := false
  readAllocate : Bool := false
  writeAllocate : Bool := false
  qos : BitVec 4 := 0
  region : BitVec 4 := 0
  arsnoop : Ace.AR := .readNoSnoop
  awsnoop : Ace.AW := .writeNoSnoop
  domain : Ace.Domain := .nonSharable
  barrier : Bool := false
  isReadTx : Bool := true
  deriving DecidableEq

/-- `Transaction`, with its `genattr_extension`. -/
structure Tx where
  genattr : Attributes
  tr : Transaction

/-- What `b_transport` is called with. The bytes are those a write is to write. -/
structure Issue where
  serial : ℕ
  genattr : Attributes
  command : Command
  address : Addr
  dataLength : ℕ
  streamingWidth : ℕ
  bytes : List (Addr × Byte)
  deriving DecidableEq

/-- `get_command`. -/
def tlmCommand : Ace.Command → Command
  | .read _ => .read
  | .write _ => .write
  | .ignoreRead _ | .ignoreWrite _ => .ignore

section Model

variable (cfg : Config) (lockWidth : ℕ)

/-- The attributes that the constructor of `Transaction` and the address phases set; `lockWidth` is
`AxLOCK_WIDTH`. -/
def Attributes.ofSignals (dir : Direction) (axProt : BitVec 3) (x : AxSignals cfg) : Attributes :=
  let order := Axi.Transaction.ofPhase cfg.proto dir 0 x.order
  let attr : Attributes :=
    { secure := !isNonSecure axProt
      wrap := decide (x.burstType = .wrap)
      burstWidth := 2 ^ x.axsize
      transactionId := x.axid
      exclusive := decide (x.axlock = 1)
      locked := decide (1 < lockWidth) && decide (x.axlock = 2)
      bufferable := x.axcache.getLsbD 0
      modifiable := x.axcache.getLsbD 1
      readAllocate := x.axcache.getLsbD 2
      writeAllocate := x.axcache.getLsbD 3
      qos := x.axqos
      region := x.axregion }
  if cfg.proto.isAce = true then
    { attr with
      arsnoop := x.arsnoop
      awsnoop := x.awsnoop
      domain := x.axdomain
      barrier := order.barrier
      isReadTx := !(decide (dir = .write) && decide (tlmCommand order.cmd = .ignore)) }
  else attr

/-- `new Transaction`, with `SetBeat` for a read that has a single data transfer. -/
def Tx.ofSignals (dir : Direction) (axProt : BitVec 3) (buf : Buffers) (x : AxSignals cfg) : Tx :=
  let cmd := (Axi.Transaction.ofPhase cfg.proto dir 0 x.order).cmd
  let tr := Transaction.ofPhase (tlmCommand cmd) (decide (dir = .write)) buf x.toAddressPhase
  { genattr := .ofSignals cfg lockWidth dir axProt x
    tr := if dir = .read ∧ tlmCommand cmd = .ignore then { tr with beat := tr.burstLen } else tr }

/-- What `write_data_phase` does to the transaction that a beat is for. -/
def Transaction.takeBeat (tr : Transaction) (beat : Beat Byte) : Transaction :=
  let tr := (tr.fillData cfg beat).incBeat
  if tr.burstLen < tr.beat then tr.tryDropBE else tr

/-- The payload of a transaction as the target sees it. -/
def Tx.issue (tx : Tx) (serial : ℕ) : Issue :=
  { serial := serial
    genattr := tx.genattr
    command := tx.tr.gp.command
    address := tx.tr.gp.address
    dataLength := tx.tr.gp.dataLength
    streamingWidth := tx.tr.gp.streamingWidth
    bytes := if tx.tr.gp.command = .write then tx.tr.gp.writes else [] }

/-! ### The steps -/

/-- One direction of the bridge, and what has been issued. -/
structure Side where
  ch : Channel := {}
  txs : List Tx := []
  issues : List Issue := []

/-- What happens next in one direction; threads are named by their place. -/
inductive Event where
  | address | data
  | start (k : ℕ)
  | issue (k : ℕ)
  | ret (k : ℕ)
  | written (k : ℕ)
  | respond | answer
  deriving DecidableEq

/-- The step of the lists and the threads. -/
def Event.action {cfg : Config} (dir : Direction) (sig : Signals cfg) : Event → Axi.Action
  | .address => .address (sig.ax dir).order
  | .data => .data sig.wid
  | .start k => .start k
  | .issue k => .issue k
  | .ret k => .ret k
  | .written k => .written k
  | .respond => .respond
  | .answer => .answer

/-- The transactions after a step; `buf` is what `new` finds in the memory. -/
def Side.txsAfter (buf : ℕ → Buffers) (dir : Direction) (s : Side) (sig : Signals cfg) : Event → List Tx
  -- both address phases sample `arprot`
  | .address => s.txs ++ [Tx.ofSignals cfg lockWidth dir sig.ar.axprot (buf s.ch.next) (sig.ax dir)]
  | .data =>
    match s.ch.dataList.find? (Channel.takesData cfg.proto sig.wid) with
    | some (wt, _) => s.txs.modify wt.serial fun tx => { tx with tr := tx.tr.takeBeat cfg sig.w }
    | none => s.txs
  | _ => s.txs

/-- What is issued in a step. -/
def Side.issued (s : Side) : Event → Option Issue
  | .issue k =>
    match s.ch.threads[k]? with
    | some ⟨_, .waiting tr⟩ => s.txs[tr.serial]?.map fun tx => tx.issue tr.serial
    | _ => none
  | _ => none

/-- A step of one direction. -/
def Side.step (buf : ℕ → Buffers) (dir : Direction) (s : Side) (a : Signals cfg × Event) : Option Side :=
  (s.ch.step cfg.proto dir (a.2.action dir a.1)).map fun ch =>
    { ch := ch, txs := s.txsAfter cfg lockWidth buf dir a.1 a.2, issues := s.issues ++ (s.issued a.2).toList }

/-- The two directions. -/
abbrev Bridge := Direction → Side

/-- The bridge after construction. -/
def Bridge.init : Bridge := fun _ => {}

/-- A step of the bridge. -/
def Bridge.step (mem : Direction → ℕ → Buffers) (s : Bridge) (a : Direction × Signals cfg × Event) : Option Bridge :=
  ((s a.1).step cfg lockWidth (mem a.1) a.1 a.2).map fun side => Function.update s a.1 side

/-! ### What is asked of two runs -/

/-- What a channel takes in. -/
inductive Input (cfg : Config) where
  | address (x : AxSignals cfg)
  | data (wid : BitVec 32) (w : Beat Byte)

/-- What an event takes in. -/
def Event.input {cfg : Config} (dir : Direction) (sig : Signals cfg) : Event → Option (Input cfg)
  | .address => some (.address (sig.ax dir))
  | .data => some (.data sig.wid sig.w)
  | _ => none

/-- The steps of one direction. -/
def stepsOf {cfg : Config} (dir : Direction) (as : List (Direction × Signals cfg × Event)) : List (Signals cfg × Event) :=
  as.filterMap fun a => if a.1 = dir then some a.2 else none

/-- What the channels of one direction take in, in order. -/
def inputs {cfg : Config} (dir : Direction) (as : List (Direction × Signals cfg × Event)) : List (Input cfg) :=
  (stepsOf dir as).filterMap fun a => a.2.input dir a.1

/-- What `arprot` is when the `n`-th address of a direction is taken, one for each. -/
def arprots {cfg : Config} (dir : Direction) (as : List (Direction × Signals cfg × Event)) : List (BitVec 3) :=
  (stepsOf dir as).filterMap fun a => if a.2 = .address then some a.1.ar.axprot else none

/-- In one direction, equal inputs make equal transactions. -/
def Agree {cfg : Config} (dir : Direction) (as₁ as₂ : List (Direction × Signals cfg × Event)) (s₁ s₂ : Bridge) : Prop :=
  inputs dir as₁ = inputs dir as₂ → ∀ i ∈ (s₁ dir).issues, ∀ j ∈ (s₂ dir).issues, i.serial = j.serial → i = j

/-- Two runs keep the channels apart. -/
structure Independent {cfg : Config} (as₁ as₂ : List (Direction × Signals cfg × Event)) (s₁ s₂ : Bridge) : Prop where
  write : Agree .write as₁ as₂ s₁ s₂
  read : Agree .read as₁ as₂ s₁ s₂

end Model

end LibSystemCTLM.Axi2Tlm
