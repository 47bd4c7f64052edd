import LibSystemCTLM.Foundation.Instances
import Mathlib.Data.List.Basic
import Mathlib.Logic.Function.Basic

/-!
# The TLM generic payload

A `tlm_generic_payload`: the command, the address, a buffer of `dataLength` bytes, the byte
enables and the streaming width. Byte `k` of the buffer belongs to the address
`address + k % streamingWidth`; the byte enables repeat along the buffer, and without any every
byte is enabled.
-/

namespace LibSystemCTLM.Tlm

/-- `uint64_t` addresses. -/
abbrev Addr := BitVec 64

/-- `unsigned char`. -/
abbrev Byte := BitVec 8

/-- `tlm_command`. -/
inductive Command where
  | read | write | ignore
  deriving DecidableEq, Repr

/-- `tlm_response_status`, as far as it is told apart. -/
inductive Response where
  | incomplete | ok | error
  deriving DecidableEq, Repr

/-- `TLM_BYTE_ENABLED`. -/
def byteEnabled : Byte := 0xff

/-- `tlm_generic_payload`. No byte enables are the empty list. -/
structure GenericPayload where
  command : Command := .ignore
  address : Addr := 0
  data : ℕ → Byte := fun _ => 0
  dataLength : ℕ := 0
  byteEnable : List Byte := []
  streamingWidth : ℕ := 0
  response : Response := .incomplete

namespace GenericPayload

variable (gp : GenericPayload)

/-- `is_read`. -/
def isRead : Bool := decide (gp.command = .read)

/-- `is_write`. -/
def isWrite : Bool := decide (gp.command = .write)

/-- Byte `k` of the buffer is enabled. -/
def enabled (k : ℕ) : Bool := gp.byteEnable.isEmpty || decide (gp.byteEnable[k % gp.byteEnable.length]? = some byteEnabled)

/-- The address of byte `k` of the buffer. -/
def byteAddr (k : ℕ) : Addr := gp.address + BitVec.ofNat 64 (k % gp.streamingWidth)

theorem byteAddr_eq (k : ℕ) : gp.byteAddr k = BitVec.ofNat 64 (gp.address.toNat + k % gp.streamingWidth) := by
  rw [BitVec.ofNat_add, BitVec.ofNat_toNat, BitVec.setWidth_eq]
  rfl

/-- The bytes a write of the payload writes, in the order of the buffer. -/
def writes : List (Addr × Byte) :=
  (List.range gp.dataLength).filterMap fun k => if gp.enabled k = true then some (gp.byteAddr k, gp.data k) else none

/-- An enabled byte of the payload is one of the `len` bytes from `a` on. -/
def Touches (a : Addr) (len : ℕ) : Prop := ∃ k < gp.dataLength, gp.enabled k = true ∧ (gp.byteAddr k - a).toNat < len

instance (a : Addr) (len : ℕ) : Decidable (gp.Touches a len) :=
  inferInstanceAs (Decidable (∃ k < gp.dataLength, _))

end GenericPayload

end LibSystemCTLM.Tlm
