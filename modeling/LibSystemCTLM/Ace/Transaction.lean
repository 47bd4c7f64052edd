import LibSystemCTLM.Foundation.ByteMemory

/-!
# ACE transactions and snoop transactions

The transaction record of `iconnect_ace` (`iconnect-ace.h`), the classifications of `amba-ace.h`
it is sorted by, and the `SnoopTransaction` that collects what the snooped ports answer.

## The model

A TLM payload with its `genattr_extension` is a `Transaction`. Its command carries the
AxSNOOP code: a code means a read transaction under `TLM_READ_COMMAND` or a `TLM_IGNORE_COMMAND`
with `is_read_tx`, and a write transaction otherwise, so a `Command` says both at once. The
buffer of a payload is a function from the byte's index to the byte. The template parameter
`CACHELINE_SZ`, an `int` and a power of two, is a `LineSize`, the first argument of whatever
depends on it.

Of `genattr_extension` the fields below are the ones the interconnect and the caches read; QoS,
region, transaction id and the AxCACHE hints are passed along and never looked at.
-/

namespace LibSystemCTLM.Ace

open Foundation

/-- `uint64_t` addresses. -/
abbrev Addr := BitVec 64

/-- `unsigned char`. -/
abbrev Byte := BitVec 8

/-- `TLM_BYTE_ENABLED`. -/
def byteEnabled : Byte := 0xff

/-- `CACHELINE_SZ`, a power of two that is an `int`. -/
structure LineSize where
  bits : ℕ
  isInt : bits < 31

namespace LineSize

/-- The default of the template parameter, 64. -/
def default : LineSize := ⟨6, by decide⟩

/-- The number of bytes, `CACHELINE_SZ`. -/
def size (ls : LineSize) : ℕ := 2 ^ ls.bits

theorem bits_le (ls : LineSize) : ls.bits ≤ 64 := le_of_lt (lt_trans ls.isInt (by decide))

theorem size_pos (ls : LineSize) : 0 < ls.size := Nat.two_pow_pos ls.bits

/-- `get_tag`, `align_address`: the address of the line. -/
def getTag (ls : LineSize) (addr : Addr) : Addr := lineOf ls.bits addr

/-- `get_line_offset`. -/
def getLineOffset (ls : LineSize) (addr : Addr) : ℕ := offsetOf ls.bits addr

theorem getLineOffset_lt (ls : LineSize) (addr : Addr) : ls.getLineOffset addr < ls.size :=
  offsetOf_lt ls.bits_le addr

@[simp] theorem getTag_getTag (ls : LineSize) (addr : Addr) : ls.getTag (ls.getTag addr) = ls.getTag addr :=
  lineOf_lineOf ls.bits addr

@[simp] theorem getLineOffset_getTag (ls : LineSize) (addr : Addr) : ls.getLineOffset (ls.getTag addr) = 0 :=
  offsetOf_lineOf ls.bits_le addr

end LineSize

/-! ### AMBA encodings (`amba-ace.h`) -/

/-- `namespace Domain`. -/
inductive Domain where
  | nonSharable | inner | outer | system
  deriving DecidableEq, Repr

/-- Inner or outer shareable. -/
def Domain.isShareable : Domain → Bool
  | .inner | .outer => true
  | .nonSharable | .system => false

/-- `namespace AR`. `readOnce` is code `0x0`, which is `ReadNoSnoop` or `Barrier` in other domains. -/
inductive AR where
  | readOnce | readShared | readClean | readNotSharedDirty | readUnique
  | cleanUnique | makeUnique
  | cleanShared | cleanInvalid | makeInvalid
  | dvmComplete | dvmMessage
  deriving DecidableEq, Repr

/-- `AR::ReadNoSnoop`, the same code as `ReadOnce`. -/
abbrev AR.readNoSnoop : AR := .readOnce

/-- `namespace AW`. `writeUnique` is code `0x0`, which is `WriteNoSnoop` in other domains. -/
inductive AW where
  | writeUnique | writeLineUnique | writeClean | writeBack | evict
  deriving DecidableEq, Repr

/-- `AW::WriteNoSnoop`, the same code as `WriteUnique`. -/
abbrev AW.writeNoSnoop : AW := .writeUnique

/-- `namespace AC`. -/
inductive AC where
  | readOnce | readShared | readClean | readNotSharedDirty | readUnique
  | cleanShared | cleanInvalid | makeInvalid
  | dvmComplete | dvmMessage
  deriving DecidableEq, Repr

/-- The TLM command and the AxSNOOP code under it. -/
inductive Command where
  | read (snoop : AR)
  | write (snoop : AW)
  /-- `TLM_IGNORE_COMMAND` with `is_read_tx`. -/
  | ignoreRead (snoop : AR)
  /-- `TLM_IGNORE_COMMAND` with `is_write_tx`. -/
  | ignoreWrite (snoop : AW)
  deriving DecidableEq, Repr

/-- `tlm_response_status`, as far as it is told apart. -/
inductive Response where
  | incomplete | ok | genericError
  deriving DecidableEq, Repr

/-- The fields of `genattr_extension` that are read, with the values its constructor sets. -/
structure Genattr where
  secure : Bool := true
  exclusive : Bool := false
  exclusiveHandled : Bool := false
  domain : Domain := .nonSharable
  barrier : Bool := false
  datatransfer : Bool := false
  errorBit : Bool := false
  shared : Bool := false
  dirty : Bool := false
  wasUnique : Bool := false
  deriving DecidableEq, Repr

/-! ### `ace_helpers` -/

/-- `IsDVM`. -/
def isDVMSnoop (domain : Domain) : AR → Bool
  | .dvmComplete | .dvmMessage => domain.isShareable
  | _ => false

/-- `HasSingleRdDataTransfer`. -/
def hasSingleRdDataTransferSnoop (domain : Domain) (snoop : AR) (barrier : Bool) : Bool :=
  (match snoop with
    | .cleanUnique | .cleanInvalid | .cleanShared | .makeInvalid | .makeUnique => domain.isShareable
    | _ => false) || barrier || isDVMSnoop domain snoop

/-- `AllowPassDirty`, for a read transaction. -/
def allowPassDirtySnoop (domain : Domain) : AR → Bool
  -- `ReadNoSnoop` is refused for the non-shareable and the system domain, `ReadOnce` for the others
  | .readOnce => false
  | .readClean | .cleanUnique | .makeUnique => !domain.isShareable
  | .cleanShared | .cleanInvalid | .makeInvalid => decide (domain = .system)
  | _ => true

/-- A transaction: `tlm_generic_payload`, `genattr_extension` and what `Transaction` adds to them. -/
structure Transaction where
  /-- `m_port_id`: an ACE port's number, or `ACELite_ID_offset` plus an ACE-Lite port's number. -/
  portId : ℕ
  cmd : Command
  address : Addr
  dataLength : ℕ
  data : ℕ → Byte
  /-- The byte-enable array; empty when there is none. -/
  byteEnable : List Byte := []
  genattr : Genattr
  response : Response := .incomplete
  /-- `m_n_segments`, the cachelines still to be snooped. -/
  nSegments : ℕ := 1

namespace Transaction

variable (ls : LineSize) (t : Transaction)

/-- `ACELite_ID_offset`. -/
def aceLiteIdOffset : ℕ := 1024

/-- `num_segments`: the cachelines from the first to the last byte of the transfer. -/
def numSegments : ℕ :=
  let alignedStart := ls.getTag t.address
  let alignedEnd := ls.getTag (t.address + BitVec.ofNat 64 t.dataLength - 1 + BitVec.ofNat 64 ls.size)
  (alignedEnd - alignedStart).toNat / ls.size

/-- `IsACELite`. -/
def isACELite : Bool := decide (aceLiteIdOffset ≤ t.portId)

/-- `HasSingleRdDataTransfer`. -/
def hasSingleRdDataTransfer : Bool :=
  match t.cmd with
  | .ignoreRead s => hasSingleRdDataTransferSnoop t.genattr.domain s t.genattr.barrier
  | _ => false

/-- `IsRead`. -/
def isRead : Bool :=
  match t.cmd with
  | .read _ => true
  | _ => t.hasSingleRdDataTransfer

/-- `IsWrite`. -/
def isWrite : Bool :=
  match t.cmd with
  | .write _ => true
  | _ => false

/-- `IsEvict`. -/
def isEvict : Bool :=
  match t.cmd with
  | .ignoreWrite .evict => t.genattr.domain.isShareable
  | _ => false

/-- `IsBarrier`. -/
def isBarrier : Bool :=
  match t.cmd with
  | .ignoreRead _ | .ignoreWrite _ => t.genattr.barrier
  | _ => false

/-- `IsDVM`. -/
def isDVM : Bool :=
  match t.cmd with
  | .ignoreRead s => isDVMSnoop t.genattr.domain s
  | _ => false

/-- `IsReadOnce` (`is_read_once`). -/
def isReadOnce : Bool :=
  match t.cmd with
  | .read .readOnce => t.genattr.domain.isShareable
  | _ => false

/-- `IsReadShared`. -/
def isReadShared : Bool :=
  match t.cmd with
  | .read .readShared => t.genattr.domain.isShareable
  | _ => false

/-- `IsReadClean`. -/
def isReadClean : Bool :=
  match t.cmd with
  | .read .readClean => t.genattr.domain.isShareable
  | _ => false

/-- `IsCleanUnique`. -/
def isCleanUnique : Bool :=
  match t.cmd with
  | .ignoreRead .cleanUnique => t.genattr.domain.isShareable
  | _ => false

/-- `IsWriteUnique` (`is_write_unique`). -/
def isWriteUnique : Bool :=
  match t.cmd with
  | .write .writeUnique => t.genattr.domain.isShareable
  | _ => false

/-- `IsWriteLineUnique` (`is_write_line_unique`). -/
def isWriteLineUnique : Bool :=
  match t.cmd with
  | .write .writeLineUnique => t.genattr.domain.isShareable
  | _ => false

/-- The read transactions of `IsSnoopingTransaction`. -/
def isSnoopingRead (domain : Domain) : AR → Bool
  | .readOnce | .readClean | .readNotSharedDirty | .readShared | .readUnique | .cleanUnique | .makeUnique
  | .dvmComplete | .dvmMessage => domain.isShareable
  | .cleanShared | .cleanInvalid | .makeInvalid => decide (domain ≠ .system)

/-- `IsSnoopingTransaction`. -/
def isSnoopingTransaction : Bool :=
  match t.cmd with
  | .read s => isSnoopingRead t.genattr.domain s
  | .ignoreRead s => t.isRead && isSnoopingRead t.genattr.domain s
  | .write .writeUnique | .write .writeLineUnique => t.genattr.domain.isShareable
  | _ => false

/-- `AllowPassDirty`. -/
def allowPassDirty : Bool :=
  match t.cmd with
  | .read s => allowPassDirtySnoop t.genattr.domain s
  | .ignoreRead s => t.hasSingleRdDataTransfer && allowPassDirtySnoop t.genattr.domain s
  | _ => false

/-- `InAddressRange`. -/
def inAddressRange (addr : Addr) : Bool :=
  let startAddr := t.address
  let endAddr := t.address + BitVec.ofNat 64 t.dataLength
  decide (startAddr ≤ addr) && decide (addr < endAddr)

/-- `Done`. -/
def done : Bool := decide (t.response ≠ .incomplete)

/-- `set_exokay`. -/
def setExokay : Transaction := { t with genattr := { t.genattr with exclusiveHandled := true } }

end Transaction

/-! ### Snoop transactions -/

/-- `init_snoop_genattr`: the snoop sent for a transaction. Codes it leaves out keep the
constructor's code `0x0`. -/
def snoopOf : Command → AC
  | .read s | .ignoreRead s =>
    match s with
    | .readOnce => .readOnce
    | .readShared => .readShared
    | .readClean => .readClean
    | .readNotSharedDirty => .readNotSharedDirty
    | .readUnique => .readUnique
    | .cleanShared => .cleanShared
    | .cleanUnique | .cleanInvalid => .cleanInvalid
    | .makeUnique | .makeInvalid => .makeInvalid
    | .dvmMessage => .dvmMessage
    | .dvmComplete => .dvmComplete
  | .write s | .ignoreWrite s =>
    match s with
    | .writeUnique => .cleanInvalid
    | .writeLineUnique => .makeInvalid
    | _ => .readOnce

/-- `is_read_snoop`. -/
def AC.isReadSnoop : AC → Bool
  | .readOnce | .readClean | .readNotSharedDirty | .readShared | .readUnique => true
  | _ => false

/-- A snoop payload of one port, `m_snoop_gp[i]`, as the port answers it. -/
structure SnoopGp where
  data : ℕ → Byte
  genattr : Genattr := {}
  response : Response := .incomplete

/-- `SnoopTransaction`: the snoops of one cacheline of a transaction. -/
structure SnoopTransaction where
  /-- The address of the cacheline. -/
  addr : Addr
  /-- `genattr.get_snoop()` of every snoop payload. -/
  snoop : AC
  /-- `genattr.get_secure()` of every snoop payload. -/
  secure : Bool
  numPortsDone : ℕ
  numMastersToSnoop : ℕ
  /-- `m_ds_gp` reads for a `ReadOnce` and writes otherwise. -/
  dsRead : Bool
  /-- `m_ds_mem`. -/
  dsData : ℕ → Byte
  dsResponse : Response
  /-- Some port answered its snoop with an error. -/
  snoopError : Bool
  /-- `m_exec_ds_gp`. -/
  execDsGp : Bool

/-- The positions `copy_data` copies between: source offset, destination offset and length. -/
structure CopyRange where
  src : ℕ
  dst : ℕ
  len : ℕ

/-- The range `copy_data` copies from a payload of `len` bytes at `snoopAddr` to one of `dstLen`
bytes at `gpAddr`. -/
def copyRange (snoopAddr : Addr) (len : ℕ) (gpAddr : Addr) (dstLen : ℕ) : CopyRange :=
  let snoopEndAddr := snoopAddr + BitVec.ofNat 64 len
  let gpEndAddr := gpAddr + BitVec.ofNat 64 dstLen
  let r : CopyRange :=
    -- `is_first_segment`
    if snoopAddr ≤ gpAddr ∧ gpAddr < snoopEndAddr then
      let offset := (gpAddr - snoopAddr).toNat
      { src := offset, dst := 0, len := len - offset }
    else
      { src := 0, dst := (snoopAddr - gpAddr).toNat, len := len }
  if gpEndAddr < snoopEndAddr then { r with len := r.len - (snoopEndAddr - gpEndAddr).toNat } else r

/-- `copy_data`: what the destination buffer holds afterwards. -/
def copyData (snoopAddr : Addr) (src : ℕ → Byte) (len : ℕ) (gpAddr : Addr) (dst : ℕ → Byte) (dstLen : ℕ) : ℕ → Byte :=
  let r := copyRange snoopAddr len gpAddr dstLen
  fun i => if r.dst ≤ i ∧ i < r.dst + r.len then src (i - r.dst + r.src) else dst i

namespace SnoopTransaction

variable (ls : LineSize)

/-- The constructor: one cacheline of `tr`, to be snooped in `numMasters` masters. -/
def mk' (tr : Transaction) (addr : Addr) (numMasters : ℕ) : SnoopTransaction where
  addr := addr
  snoop := snoopOf tr.cmd
  secure := tr.genattr.secure
  numPortsDone := 0
  numMastersToSnoop := numMasters
  dsRead := tr.isReadOnce
  dsData := fun _ => 0
  dsResponse := .incomplete
  snoopError := false
  execDsGp := tr.isReadOnce

/-- `SnoopDone`. -/
def snoopDone (st : SnoopTransaction) : Bool := decide (st.numPortsDone = st.numMastersToSnoop)

/-- `update_trans_response`: the response of the transaction after a port's answer. -/
def updateTransResponse (tr : Transaction) (snoop : AC) (g : Genattr) : Response :=
  if g.errorBit then .genericError
  else if tr.response = .genericError then tr.response
  else
    match snoop with
    | .readOnce => tr.response
    | .readClean | .readNotSharedDirty | .readShared | .readUnique => if g.datatransfer then .ok else tr.response
    | .cleanInvalid =>
      if tr.isWriteUnique then tr.response else if tr.isWriteLineUnique then tr.response else .ok
    | .makeInvalid => if tr.isWriteLineUnique then tr.response else .ok
    | .cleanShared | .dvmMessage | .dvmComplete => .ok

/-- `PortDone`: a port has answered with `gp`; the transaction and the snoop transaction afterwards. -/
def portDone (tr : Transaction) (st : SnoopTransaction) (gp : SnoopGp) : Transaction × SnoopTransaction :=
  let size := ls.size
  let g := gp.genattr
  let attr := if g.shared then { tr.genattr with shared := true } else tr.genattr
  let transfer := g.datatransfer
  -- only read transactions copy data
  let data :=
    if transfer && st.snoop.isReadSnoop then copyData st.addr gp.data size tr.address tr.data tr.dataLength
    else tr.data
  let passDirty := transfer && tr.allowPassDirty && g.dirty
  -- dirty data that may not be passed is written downstream
  let toDs := transfer && !tr.allowPassDirty && g.dirty
  let tr' := { tr with
    genattr := if passDirty then { attr with dirty := true } else attr
    data := data
    response := updateTransResponse tr st.snoop g }
  let st' := { st with
    numPortsDone := st.numPortsDone + 1
    dsData := if toDs then copyData st.addr gp.data size st.addr st.dsData size else st.dsData
    snoopError := st.snoopError || decide (gp.response = .genericError)
    execDsGp := if toDs then true else if transfer && tr.isReadOnce then false else st.execDsGp }
  (tr', st')

/-- `got_error_response`. -/
def gotErrorResponse (st : SnoopTransaction) : Bool := st.snoopError || decide (st.dsResponse = .genericError)

end SnoopTransaction

end LibSystemCTLM.Ace
