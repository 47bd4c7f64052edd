import LibSystemCTLM.Foundation.ByteStrings
import LibSystemCTLM.Foundation.Endian
import LibSystemCTLM.Tlm.Payload

/-!
# Atomics of the slave node

`HandleAtomic` of `sn-chi.h`: the slave node reads the memory, puts away the original data for the response, turns
both operands into the order of the machine it runs on, does the operation, and writes the result.

The sub-opcode is three bits of the opcode, and `Process` compares it with the numbers of `Req::Atomic`, of which
only `ADD` and `CLR` have three bits: the others were to be binary, and are octal or decimal. So the other operations
do nothing, and are right when there is nothing to do (`right_iff`).
-/

namespace LibSystemCTLM.Chi.Atomics

open Foundation Tlm

/-- `CACHELINE_SZ`. -/
def lineSize : ℕ := 64

/-- `ReqTxn`, as far as an atomic goes by it. -/
structure ReqTxn where
  opcode : ℕ
  address : Addr
  /-- The outbound length. -/
  dataLength : ℕ
  endian : Endian
  dataSlave : ℕ → Byte

/-- The data and the byte enables of the response, `m_data` and `m_byteEnable`. -/
structure Dat where
  data : ℕ → Byte
  byteEnable : ℕ → Bool

structure Outcome where
  mem : Addr → Byte
  dat : Option Dat

/-- Bytes of an array of a line; there are none beyond its end. -/
def slice (a : ℕ → Byte) (i n : ℕ) : Option (List Byte) := if i + n ≤ lineSize then some ((List.range n).map fun k => a (i + k)) else none

namespace ReqTxn

variable (req : ReqTxn)

def isAtomicStore : Bool := decide (0x28 ≤ req.opcode ∧ req.opcode < 0x30)

def isAtomicLoad : Bool := decide (0x30 ≤ req.opcode ∧ req.opcode < 0x38)

def isAtomicSwap : Bool := decide (req.opcode = 0x38)

def isAtomicCompare : Bool := decide (req.opcode = 0x39)

def getAtomicOp : ℕ := req.opcode &&& 7

def getLineOffset : ℕ := (req.address &&& 63).toNat

def getData (n : ℕ) : Option (List Byte) := slice req.dataSlave req.getLineOffset n

def getCompareData (n : ℕ) : Option (List Byte) := slice req.dataSlave req.getLineOffset n

/-- `unsigned` arithmetic. -/
def getSwapData (n : ℕ) : Option (List Byte) :=
  let offset :=
    if req.getLineOffset % req.dataLength ≠ 0 then (req.getLineOffset + 2 ^ 32 - req.dataLength / 2) % 2 ^ 32
    else req.getLineOffset + req.dataLength / 2
  slice req.dataSlave offset n

def copyOriginalData (orgData : List Byte) : Option Dat :=
  let len := if req.isAtomicCompare = true then req.dataLength / 2 else req.dataLength
  let offset := req.getLineOffset
  if offset + len ≤ lineSize then
    some ⟨fun k => if offset ≤ k ∧ k < offset + len then orgData.getD (k - offset) 0 else 0, fun k => decide (offset ≤ k ∧ k < offset + len)⟩
  else none

end ReqTxn

/-! ### `AtomicOperations` -/

section Operations

variable {n : ℕ} (a b : BitVec (8 * n))

def atomicADD : BitVec (8 * n) := a + b

def atomicCLR : BitVec (8 * n) := a &&& ~~~b

def atomicEOR : BitVec (8 * n) := a ^^^ b

def atomicSET : BitVec (8 * n) := a ||| b

/-- `*val2-*val1`: types of less than four bytes are promoted to `int`, and what is unsigned stays so otherwise. -/
def difference (signed : Bool) : ℤ :=
  if n < 4 then if signed = true then b.toInt - a.toInt else b.toNat - a.toNat
  else if signed = true then (b - a).toInt else (b - a).toNat

def atomicMAX (signed : Bool) : BitVec (8 * n) := if 0 < difference a b signed then b else a

def atomicMIN (signed : Bool) : BitVec (8 * n) := if difference a b signed < 0 then b else a

end Operations

/-- The operation of one size, on the bytes in the order of the machine. -/
def onBytes (host : Endian) (f : {n : ℕ} → BitVec (8 * n) → BitVec (8 * n) → BitVec (8 * n)) (len : ℕ) (data operand : List Byte) : List Byte :=
  host.bytes len (f (host.word len data) (host.word len operand))

/-- The switch over the sizes, from which an operation of another size falls through. -/
def sized (host : Endian) (f : {n : ℕ} → BitVec (8 * n) → BitVec (8 * n) → BitVec (8 * n)) (len : ℕ) (data operand : List Byte) : List Byte :=
  match len with
  | 1 | 2 | 4 | 8 => onBytes host f len data operand
  | _ => data

def doAdd (host : Endian) : ℕ → List Byte → List Byte → List Byte := sized host atomicADD

def doCLR (host : Endian) : ℕ → List Byte → List Byte → List Byte := sized host atomicCLR

def doEOR (host : Endian) : ℕ → List Byte → List Byte → List Byte := sized host atomicEOR

def doSET (host : Endian) : ℕ → List Byte → List Byte → List Byte := sized host atomicSET

/-- With unsigned types. -/
def doSMAX (host : Endian) : ℕ → List Byte → List Byte → List Byte := sized host fun a b => atomicMAX a b false

def doSMIN (host : Endian) : ℕ → List Byte → List Byte → List Byte := sized host fun a b => atomicMIN a b true

def doUMAX (host : Endian) : ℕ → List Byte → List Byte → List Byte := sized host fun a b => atomicMAX a b false

/-- `Process`, with the numbers of `Req::Atomic` as they are read: 010 and 011 are octal. The last is not `DoUMIN`. -/
def process (host : Endian) (op len : ℕ) (data : List Byte) (operand : Option (List Byte)) : Option (List Byte) :=
  match op with
  | 0 => operand.map (doAdd host len data)
  | 1 => operand.map (doCLR host len data)
  | 0o10 => operand.map (doEOR host len data)
  | 0o11 => operand.map (doSET host len data)
  | 100 => operand.map (doSMAX host len data)
  | 101 => operand.map (doSMIN host len data)
  | 110 => operand.map (doUMAX host len data)
  | 111 => operand.map (doUMAX host len data)
  | _ => some data

/-! ### `HandleAtomic` -/

/-- `CorrectEndiannessPreOp`, `Process` and `CorrectEndiannessPostOp`. -/
def operate (host : Endian) (req : ReqTxn) (data : List Byte) : Option (List Byte) :=
  if req.endian = host then process host req.getAtomicOp req.dataLength data (req.getData req.dataLength)
  else do
    let operand ← req.getData req.dataLength
    let result ← process host req.getAtomicOp req.dataLength data.reverse (some operand.reverse)
    some result.reverse

/-- What is written to memory, for what was read. -/
def compute (host : Endian) (req : ReqTxn) (data : List Byte) : Option (List Byte) :=
  if (req.isAtomicStore || req.isAtomicLoad) = true then operate host req data
  else if req.isAtomicSwap = true then req.getData req.dataLength
  else if req.isAtomicCompare = true then do
    let compData ← req.getCompareData (req.dataLength / 2)
    if data.take (req.dataLength / 2) = compData then do
      let swapData ← req.getSwapData (req.dataLength / 2)
      some (swapData ++ data.drop (req.dataLength / 2))
    else some data
  else some data

/-- The data that is returned, if any. -/
def response (req : ReqTxn) (data : List Byte) : Option (Option Dat) :=
  if req.isAtomicStore = true then some none else (req.copyOriginalData data).map some

/-- `HandleAtomic`, on a machine of either byte order. -/
def handleAtomic (host : Endian) (mem : Addr → Byte) (req : ReqTxn) : Option Outcome :=
  if req.dataLength ≤ lineSize then do
    let data := loadBytes mem req.address req.dataLength
    let dat ← response req data
    let result ← compute host req data
    some ⟨storeBytes mem req.address result, dat⟩
  else none

/-! ### The architecture -/

/-- The operations of the stores and the loads, in the order of their sub-opcodes. -/
inductive SubOp where
  | add | clr | eor | set | smax | smin | umax | umin
  deriving DecidableEq, Repr

/-- The forms of an atomic. -/
inductive Form where
  | store (op : SubOp)
  | load (op : SubOp)
  | swap
  | compare
  deriving DecidableEq, Repr

def SubOp.code : SubOp → ℕ
  | .add => 0
  | .clr => 1
  | .eor => 2
  | .set => 3
  | .smax => 4
  | .smin => 5
  | .umax => 6
  | .umin => 7

/-- The result of an operation on the value in memory and the operand. -/
def SubOp.apply {w : ℕ} (old operand : BitVec w) : SubOp → BitVec w
  | .add => old + operand
  | .clr => old &&& ~~~operand
  | .eor => old ^^^ operand
  | .set => old ||| operand
  | .smax => if old.toInt < operand.toInt then operand else old
  | .smin => if operand.toInt < old.toInt then operand else old
  | .umax => if old.toNat < operand.toNat then operand else old
  | .umin => if operand.toNat < old.toNat then operand else old

namespace Form

def opcode : Form → ℕ
  | store op => 0x28 + op.code
  | load op => 0x30 + op.code
  | swap => 0x38
  | compare => 0x39

/-- The outbound lengths that the protocol allows. -/
def sizes : Form → List ℕ
  | compare => [2, 4, 8, 16, 32]
  | _ => [1, 2, 4, 8]

/-- How many bytes of memory it is about. -/
def inbound (len : ℕ) : Form → ℕ
  | compare => len / 2
  | _ => len

def isStore : Form → Bool
  | store _ => true
  | _ => false

end Form

/-- The other half of the window of an outbound length that a byte of the line lies in. -/
def otherHalf (offset len : ℕ) : ℕ := if offset % len = 0 then offset + len / 2 else offset / len * len

/-- What memory is to hold. The operand lies in the line at the place of the address; that of a compare is one half of
its window, and the other half is what to swap in. -/
def result (req : ReqTxn) (old : List Byte) : Form → Option (List Byte)
  | .store op | .load op => (slice req.dataSlave req.getLineOffset req.dataLength).map fun operand =>
    req.endian.bytes req.dataLength (op.apply (req.endian.word req.dataLength old) (req.endian.word req.dataLength operand))
  | .swap => slice req.dataSlave req.getLineOffset req.dataLength
  | .compare =>
    if req.getLineOffset % (req.dataLength / 2) = 0 then do
      let compareData ← slice req.dataSlave req.getLineOffset (req.dataLength / 2)
      let swapData ← slice req.dataSlave (otherHalf req.getLineOffset req.dataLength) (req.dataLength / 2)
      some (if old = compareData then swapData else old)
    else none

/-- What there was in memory, at its place in the line. -/
structure Original (mem : Addr → Byte) (req : ReqTxn) (n : ℕ) (d : Dat) : Prop where
  data : ∀ k < n, d.data (req.getLineOffset + k) = mem (req.address + BitVec.ofNat 64 k)
  byteEnable : ∀ k, d.byteEnable k = true ↔ req.getLineOffset ≤ k ∧ k < req.getLineOffset + n

/-- **The atomic is done**: the result is in memory and nothing else changed, and all but the stores return what there
was. -/
structure Right (f : Form) (mem : Addr → Byte) (req : ReqTxn) (o : Outcome) : Prop where
  written : ∃ r, result req (loadBytes mem req.address (f.inbound req.dataLength)) f = some r ∧ o.mem = storeBytes mem req.address r
  returned : if f.isStore = true then o.dat = none else ∃ d, o.dat = some d ∧ Original mem req (f.inbound req.dataLength) d

/-- There is nothing to do, or it is done. -/
def SubOp.Done {w : ℕ} (old operand : BitVec w) : SubOp → Prop
  | .add | .clr => True
  | .eor => operand = 0#w
  | .set => operand &&& ~~~old = 0#w
  | .smax => operand.toInt ≤ old.toInt
  | .smin => old.toInt ≤ operand.toInt
  | .umax => operand.toNat ≤ old.toNat
  | .umin => old.toNat ≤ operand.toNat

/-- The bytes of the operand in the line. -/
def lane (req : ReqTxn) : List Byte := (List.range req.dataLength).map fun k => req.dataSlave (req.getLineOffset + k)

/-- When the slave node does an atomic. -/
def Fair (mem : Addr → Byte) (req : ReqTxn) : Form → Prop
  | .store op | .load op => req.getLineOffset + req.dataLength ≤ lineSize ∧
    op.Done (req.endian.word req.dataLength (loadBytes mem req.address req.dataLength)) (req.endian.word req.dataLength (lane req))
  | .swap => req.getLineOffset + req.dataLength ≤ lineSize
  | .compare => req.getLineOffset % (req.dataLength / 2) = 0

/-! ### The operations -/

/-- A comparison leaves what there was unless the operand wins it. -/
theorem ite_lt_eq_right_iff {α β : Type*} [LinearOrder β] {a b : α} {x y : β} (h : b = a → y ≤ x) :
    (if x < y then b else a) = a ↔ y ≤ x := by
  split_ifs with hlt
  · exact ⟨h, fun hle => absurd hlt (not_lt.2 hle)⟩
  · exact ⟨fun _ => not_lt.1 hlt, fun _ => rfl⟩

theorem apply_eq_iff {w : ℕ} (a b : BitVec w) {op : SubOp} (hadd : op ≠ .add) (hclr : op ≠ .clr) : op.apply a b = a ↔ op.Done a b := by
  cases op with
  | add => exact absurd rfl hadd
  | clr => exact absurd rfl hclr
  | eor =>
    constructor
    · intro h
      have hback := congrArg (a ^^^ ·) h
      simpa [SubOp.apply, SubOp.Done, ← BitVec.xor_assoc] using hback
    · rintro rfl
      exact BitVec.xor_zero
  | set =>
    constructor
    · intro h
      rw [SubOp.apply] at h
      rw [SubOp.Done, ← h]
      apply BitVec.eq_of_getLsbD_eq
      intro i hi
      simp only [BitVec.getLsbD_and, BitVec.getLsbD_not, BitVec.getLsbD_or, hi, decide_true, Bool.true_and, BitVec.getLsbD_zero]
      cases a.getLsbD i <;> cases b.getLsbD i <;> rfl
    · intro h
      apply BitVec.eq_of_getLsbD_eq
      intro i hi
      have hbit := congrArg (fun v : BitVec w => v.getLsbD i) h
      simp only [BitVec.getLsbD_and, BitVec.getLsbD_not, hi, decide_true, Bool.true_and, BitVec.getLsbD_zero] at hbit
      rw [SubOp.apply, BitVec.getLsbD_or]
      cases ha : a.getLsbD i <;> simp_all
  | smax => exact ite_lt_eq_right_iff fun heq => heq ▸ le_refl _
  | smin => exact ite_lt_eq_right_iff fun heq => heq ▸ le_refl _
  | umax => exact ite_lt_eq_right_iff fun heq => heq ▸ le_refl _
  | umin => exact ite_lt_eq_right_iff fun heq => heq ▸ le_refl _

variable {host : Endian} {mem : Addr → Byte} {req : ReqTxn} {data : List Byte}

theorem sized_of_mem {f : {n : ℕ} → BitVec (8 * n) → BitVec (8 * n) → BitVec (8 * n)} {len : ℕ} (h : len ∈ [1, 2, 4, 8]) (operand : List Byte) :
    sized host f len data operand = onBytes host f len data operand := by
  simp only [List.mem_cons, List.not_mem_nil, or_false] at h
  rcases h with rfl | rfl | rfl | rfl <;> rfl

/-- The switch over the sub-opcodes finds two of the operations. -/
theorem process_code (op : SubOp) (len : ℕ) (operand : Option (List Byte)) :
    process host op.code len data operand =
      match op with
      | .add => operand.map (doAdd host len data)
      | .clr => operand.map (doCLR host len data)
      | _ => some data := by
  cases op <;> rfl

theorem operate_of_done {f : {n : ℕ} → BitVec (8 * n) → BitVec (8 * n) → BitVec (8 * n)} (hlen : req.dataLength ∈ [1, 2, 4, 8])
    (hprocess : ∀ data operand, process host req.getAtomicOp req.dataLength data operand = operand.map (sized host f req.dataLength data)) :
    operate host req data = (req.getData req.dataLength).map fun operand =>
      req.endian.bytes req.dataLength (f (req.endian.word req.dataLength data) (req.endian.word req.dataLength operand)) := by
  rw [operate]
  split_ifs with he
  · rw [hprocess, he]
    exact congrArg (fun g => Option.map g (req.getData req.dataLength)) (funext fun operand => sized_of_mem hlen operand)
  · simp only [hprocess, Option.map_some]
    cases req.getData req.dataLength with
    | none => rfl
    | some operand =>
      have hne : host ≠ req.endian := fun h => he h.symm
      change some _ = some _
      rw [sized_of_mem hlen, onBytes, Endian.word_reverse hne, Endian.word_reverse hne, Endian.reverse_bytes hne]

theorem operate_eq_self (hprocess : ∀ data operand, process host req.getAtomicOp req.dataLength data operand = some data) {operand : List Byte}
    (h : req.getData req.dataLength = some operand) : operate host req data = some data := by
  rw [operate]
  split_ifs with he
  · exact hprocess _ _
  · rw [h]
    simp [hprocess]

theorem eq_of_operate (hprocess : ∀ data operand, process host req.getAtomicOp req.dataLength data operand = some data) {r : List Byte}
    (h : operate host req data = some r) : r = data := by
  rw [operate] at h
  split_ifs at h with he
  · rw [hprocess] at h
    exact (Option.some.inj h).symm
  · obtain ⟨operand, -, h⟩ := Option.bind_eq_some_iff.1 h
    rw [hprocess] at h
    have hr : data.reverse.reverse = r := Option.some.inj h
    rw [← hr, List.reverse_reverse]

/-! ### Requests -/

variable {f : Form}

theorem isAtomicStore_of_opcode (h : req.opcode = f.opcode) : req.isAtomicStore = f.isStore := by
  rw [ReqTxn.isAtomicStore, h]
  cases f with
  | store op => cases op <;> rfl
  | load op => cases op <;> rfl
  | swap => rfl
  | compare => rfl

theorem isAtomicCompare_of_opcode (h : req.opcode = f.opcode) : req.isAtomicCompare = decide (f = .compare) := by
  rw [ReqTxn.isAtomicCompare, h]
  cases f with
  | store op => cases op <;> rfl
  | load op => cases op <;> rfl
  | swap => rfl
  | compare => rfl

theorem getAtomicOp_of_opcode {op : SubOp} (h : req.opcode = (Form.store op).opcode ∨ req.opcode = (Form.load op).opcode) :
    req.getAtomicOp = op.code := by
  rw [ReqTxn.getAtomicOp]
  rcases h with h | h
  · rw [h]
    cases op <;> rfl
  · rw [h]
    cases op <;> rfl

theorem compute_of_operate {op : SubOp} (h : req.opcode = (Form.store op).opcode ∨ req.opcode = (Form.load op).opcode) (data : List Byte) :
    compute host req data = operate host req data := by
  rw [compute, if_pos]
  rw [ReqTxn.isAtomicStore, ReqTxn.isAtomicLoad]
  rcases h with h | h
  · rw [h]
    cases op <;> rfl
  · rw [h]
    cases op <;> rfl

theorem compute_of_swap (h : req.opcode = Form.swap.opcode) (data : List Byte) : compute host req data = req.getData req.dataLength := by
  simp [compute, ReqTxn.isAtomicStore, ReqTxn.isAtomicLoad, ReqTxn.isAtomicSwap, h, Form.opcode]

theorem compute_of_compare (h : req.opcode = Form.compare.opcode) (data : List Byte) :
    compute host req data = (req.getCompareData (req.dataLength / 2)).bind fun compData =>
      if data.take (req.dataLength / 2) = compData then
        (req.getSwapData (req.dataLength / 2)).bind fun swapData => some (swapData ++ data.drop (req.dataLength / 2))
      else some data := by
  simp [compute, ReqTxn.isAtomicStore, ReqTxn.isAtomicLoad, ReqTxn.isAtomicSwap, ReqTxn.isAtomicCompare, h, Form.opcode]

theorem getLineOffset_lt (req : ReqTxn) : req.getLineOffset < lineSize := by
  have hle : req.getLineOffset ≤ 63 := by
    rw [ReqTxn.getLineOffset, BitVec.toNat_and]
    exact Nat.and_le_right
  exact Nat.lt_succ_of_le hle

theorem inbound_le (len : ℕ) : f.inbound len ≤ len := by
  cases f with
  | compare => exact Nat.div_le_self _ _
  | store op => exact le_refl _
  | load op => exact le_refl _
  | swap => exact le_refl _

/-- The original data is put at its place in the line. -/
theorem original_of_fits (mem : Addr → Byte) (hop : req.opcode = f.opcode) (hfits : req.getLineOffset + f.inbound req.dataLength ≤ lineSize) :
    ∃ d, req.copyOriginalData (loadBytes mem req.address req.dataLength) = some d ∧ Original mem req (f.inbound req.dataLength) d := by
  have hlen : (if req.isAtomicCompare = true then req.dataLength / 2 else req.dataLength) = f.inbound req.dataLength := by
    rw [isAtomicCompare_of_opcode hop]
    cases f <;> rfl
  rw [ReqTxn.copyOriginalData, hlen]
  rw [if_pos hfits]
  refine ⟨_, rfl, fun k hk => ?_, fun k => by simp⟩
  have hk' : k < req.dataLength := lt_of_lt_of_le hk (inbound_le _)
  simp only
  rw [if_pos (by omega), Nat.add_sub_cancel_left, List.getD_eq_getElem?_getD, getElem?_loadBytes _ _ hk', Option.getD_some]

theorem of_handleAtomic {o : Outcome} (h : handleAtomic host mem req = some o) :
    ∃ r, compute host req (loadBytes mem req.address req.dataLength) = some r ∧ o.mem = storeBytes mem req.address r := by
  rw [handleAtomic] at h
  split_ifs at h
  obtain ⟨dat, -, h⟩ := Option.bind_eq_some_iff.1 h
  obtain ⟨r, hr, h⟩ := Option.bind_eq_some_iff.1 h
  cases h
  exact ⟨r, hr, rfl⟩

/-- An atomic whose operands are in the line, and what it writes. -/
theorem right_of_compute (hop : req.opcode = f.opcode) (hlen : req.dataLength ≤ lineSize)
    (hfits : req.getLineOffset + f.inbound req.dataLength ≤ lineSize) {r r' : List Byte}
    (hcompute : compute host req (loadBytes mem req.address req.dataLength) = some r')
    (hresult : result req (loadBytes mem req.address (f.inbound req.dataLength)) f = some r)
    (hsame : storeBytes mem req.address r' = storeBytes mem req.address r) : ∃ o, handleAtomic host mem req = some o ∧ Right f mem req o := by
  obtain ⟨d, hd, horiginal⟩ := original_of_fits mem hop hfits
  have hrun : ∀ dat, response req (loadBytes mem req.address req.dataLength) = some dat →
      handleAtomic host mem req = some ⟨storeBytes mem req.address r', dat⟩ := by
    intro dat hdat
    simp [handleAtomic, if_pos hlen, hdat, hcompute]
  rw [response, isAtomicStore_of_opcode hop, hd] at hrun
  by_cases hstore : f.isStore = true
  · rw [if_pos hstore] at hrun
    exact ⟨_, hrun _ rfl, ⟨r, hresult, hsame⟩, by rw [if_pos hstore]⟩
  · rw [if_neg hstore] at hrun
    exact ⟨_, hrun _ rfl, ⟨r, hresult, hsame⟩, by rw [if_neg hstore]; exact ⟨d, rfl, horiginal⟩⟩

theorem slice_of_fits {a : ℕ → Byte} {i n : ℕ} (h : i + n ≤ lineSize) : slice a i n = some ((List.range n).map fun k => a (i + k)) := if_pos h

theorem fits_of_slice {a : ℕ → Byte} {i n : ℕ} {l : List Byte} (h : slice a i n = some l) : i + n ≤ lineSize := by
  by_contra hnot
  rw [slice, if_neg hnot] at h
  cases h

/-! ### Stores and loads -/

theorem le_lineSize {len : ℕ} (h : len ∈ [1, 2, 4, 8]) : len ≤ lineSize := by
  simp only [List.mem_cons, List.not_mem_nil, or_false] at h
  rw [lineSize]
  omega

theorem right_iff_of_op {op : SubOp} (hf : f = .store op ∨ f = .load op) (hop : req.opcode = f.opcode) (hlen : req.dataLength ∈ [1, 2, 4, 8]) :
    (∃ o, handleAtomic host mem req = some o ∧ Right f mem req o) ↔ req.getLineOffset + req.dataLength ≤ lineSize ∧
      op.Done (req.endian.word req.dataLength (loadBytes mem req.address req.dataLength)) (req.endian.word req.dataLength (lane req)) := by
  have hop' : req.opcode = (Form.store op).opcode ∨ req.opcode = (Form.load op).opcode := by
    rcases hf with rfl | rfl
    · exact .inl hop
    · exact .inr hop
  have hcompute : ∀ data, compute host req data = operate host req data := compute_of_operate hop'
  have hle := le_lineSize hlen
  have hinbound : f.inbound req.dataLength = req.dataLength := by rcases hf with rfl | rfl <;> rfl
  let old := loadBytes mem req.address req.dataLength
  have hresult : result req old f = (slice req.dataSlave req.getLineOffset req.dataLength).map fun operand =>
      req.endian.bytes req.dataLength (op.apply (req.endian.word req.dataLength old) (req.endian.word req.dataLength operand)) := by
    rcases hf with rfl | rfl <;> rfl
  have hprocess : ∀ data operand, process host req.getAtomicOp req.dataLength data operand = _ := fun data operand =>
    (congrArg (fun c => process host c req.dataLength data operand) (getAtomicOp_of_opcode hop')).trans (process_code op _ operand)
  have hfits : ∀ {o}, Right f mem req o → req.getLineOffset + req.dataLength ≤ lineSize := by
    intro o hright
    obtain ⟨r, hr, -⟩ := hright.written
    rw [hinbound, hresult] at hr
    obtain ⟨operand, hslice, -⟩ := Option.map_eq_some_iff.1 hr
    exact fits_of_slice hslice
  have hlane : req.getLineOffset + req.dataLength ≤ lineSize → slice req.dataSlave req.getLineOffset req.dataLength = some (lane req) := slice_of_fits
  by_cases hdone : op = .add ∨ op = .clr
  · have hoperate : operate host req old = result req old f := by
      rw [hresult]
      rcases hdone with rfl | rfl
      · exact operate_of_done hlen hprocess
      · exact operate_of_done hlen hprocess
    constructor
    · rintro ⟨o, -, hright⟩
      exact ⟨hfits hright, by rcases hdone with rfl | rfl <;> trivial⟩
    · rintro ⟨hfit, -⟩
      obtain ⟨r, hr⟩ : ∃ r, result req old f = some r := by
        rw [hresult, hlane hfit]
        exact ⟨_, rfl⟩
      exact right_of_compute hop hle (by rw [hinbound]; exact hfit) ((hcompute _).trans (hoperate.trans hr)) (by rw [hinbound]; exact hr) rfl
  · have hadd : op ≠ .add := fun h => hdone (.inl h)
    have hclr : op ≠ .clr := fun h => hdone (.inr h)
    have hkept : ∀ data operand, process host req.getAtomicOp req.dataLength data operand = some data := by
      intro data operand
      rw [hprocess]
      cases op <;> first | rfl | contradiction
    constructor
    · rintro ⟨o, ho, hright⟩
      refine ⟨hfits hright, (apply_eq_iff _ _ hadd hclr).1 ?_⟩
      obtain ⟨r, hr, hmem⟩ := hright.written
      obtain ⟨r', hr', hmem'⟩ := of_handleAtomic ho
      rw [hcompute] at hr'
      rw [hinbound, hresult, hlane (hfits hright), Option.map_some] at hr
      obtain rfl : r' = old := eq_of_operate hkept hr'
      have hlen' : old.length = req.dataLength := length_loadBytes _ _ _
      have hr_eq : old = r := storeBytes_inj (hmem'.symm.trans hmem) (by rw [← Option.some.inj hr, hlen', Endian.length_bytes])
        (by rw [hlen', lineSize] at *; omega)
      rw [← hr_eq] at hr
      rw [← Endian.bytes_inj, Option.some.inj hr]
      exact (Endian.bytes_word _ hlen').symm
    · rintro ⟨hfit, hdone⟩
      have hr : result req old f = some old := by
        rw [hresult, hlane hfit, Option.map_some, (apply_eq_iff _ _ hadd hclr).2 hdone, Endian.bytes_word _ (length_loadBytes _ _ _)]
      exact right_of_compute hop hle (by rw [hinbound]; exact hfit) ((hcompute _).trans (operate_eq_self hkept (hlane hfit))) (by rw [hinbound]; exact hr) rfl

/-! ### Swaps and compares -/

theorem right_iff_of_swap (hop : req.opcode = Form.swap.opcode) (hlen : req.dataLength ∈ [1, 2, 4, 8]) :
    (∃ o, handleAtomic host mem req = some o ∧ Right .swap mem req o) ↔ req.getLineOffset + req.dataLength ≤ lineSize := by
  have hle := le_lineSize hlen
  constructor
  · rintro ⟨o, -, hright⟩
    obtain ⟨r, hr, -⟩ := hright.written
    exact fits_of_slice hr
  · intro hfit
    have hslice : slice req.dataSlave req.getLineOffset req.dataLength = some (lane req) := slice_of_fits hfit
    exact right_of_compute hop hle hfit ((compute_of_swap hop _).trans hslice) hslice rfl

/-- The other half of a window is in the line, and at the index that is computed for it. -/
theorem swapIndex_eq {offset len : ℕ} (hlen : len ∈ Form.compare.sizes) (hhalf : offset % (len / 2) = 0) (hlt : offset < 64) :
    (if offset % len ≠ 0 then (offset + 2 ^ 32 - len / 2) % 2 ^ 32 else offset + len / 2) = otherHalf offset len ∧
      offset + len / 2 ≤ 64 ∧ otherHalf offset len + len / 2 ≤ 64 := by
  simp only [Form.sizes, List.mem_cons, List.not_mem_nil, or_false] at hlen
  rw [otherHalf]
  rcases hlen with rfl | rfl | rfl | rfl | rfl
  all_goals
    split_ifs
    · omega
    · omega
    · omega

theorem getSwapData_eq (hlen : req.dataLength ∈ Form.compare.sizes) (hhalf : req.getLineOffset % (req.dataLength / 2) = 0) :
    req.getSwapData (req.dataLength / 2) = slice req.dataSlave (otherHalf req.getLineOffset req.dataLength) (req.dataLength / 2) ∧
      req.getLineOffset + req.dataLength / 2 ≤ lineSize ∧ otherHalf req.getLineOffset req.dataLength + req.dataLength / 2 ≤ lineSize := by
  obtain ⟨hidx, hfit, hfit'⟩ := swapIndex_eq hlen hhalf (getLineOffset_lt req)
  refine ⟨?_, hfit, hfit'⟩
  simp only [ReqTxn.getSwapData]
  rw [hidx]

theorem right_iff_of_compare (hop : req.opcode = Form.compare.opcode) (hlen : req.dataLength ∈ Form.compare.sizes) :
    (∃ o, handleAtomic host mem req = some o ∧ Right .compare mem req o) ↔ req.getLineOffset % (req.dataLength / 2) = 0 := by
  have hle : req.dataLength ≤ lineSize := by
    simp only [Form.sizes, List.mem_cons, List.not_mem_nil, or_false] at hlen
    rw [lineSize]
    omega
  constructor
  · rintro ⟨o, -, hright⟩
    obtain ⟨r, hr, -⟩ := hright.written
    by_contra hnot
    rw [result, if_neg hnot] at hr
    cases hr
  · intro hhalf
    obtain ⟨hswap, hfit, hfit'⟩ := getSwapData_eq hlen hhalf
    let n := req.dataLength / 2
    let old := loadBytes mem req.address n
    let compData := (List.range n).map fun k => req.dataSlave (req.getLineOffset + k)
    let swapData := (List.range n).map fun k => req.dataSlave (otherHalf req.getLineOffset req.dataLength + k)
    have hcomp : slice req.dataSlave req.getLineOffset n = some compData := slice_of_fits hfit
    have hswap' : slice req.dataSlave (otherHalf req.getLineOffset req.dataLength) n = some swapData := slice_of_fits hfit'
    have hdata : loadBytes mem req.address req.dataLength = old ++ loadBytes mem (req.address + BitVec.ofNat 64 n) (req.dataLength - n) := by
      rw [← loadBytes_add, Nat.add_sub_cancel' (Nat.div_le_self _ _)]
    have hold : old.length = n := length_loadBytes _ _ _
    have htake : (loadBytes mem req.address req.dataLength).take n = old := by rw [hdata, ← hold, List.take_left]
    have hdrop : (loadBytes mem req.address req.dataLength).drop n = loadBytes mem (req.address + BitVec.ofNat 64 n) (req.dataLength - n) := by
      rw [hdata]
      exact (congrArg (fun k => (old ++ _).drop k) hold.symm).trans List.drop_left
    have hr : result req old .compare = some (if old = compData then swapData else old) := by
      rw [result, if_pos hhalf, hcomp, hswap']
      rfl
    have hcompute : compute host req (loadBytes mem req.address req.dataLength) =
        some (if old = compData then swapData ++ loadBytes mem (req.address + BitVec.ofNat 64 n) (req.dataLength - n)
          else loadBytes mem req.address req.dataLength) := by
      rw [compute_of_compare hop, ReqTxn.getCompareData, hcomp, Option.bind_some, htake, hswap, hswap', Option.bind_some, hdrop]
      split_ifs
      · rfl
      · rfl
    refine right_of_compute hop hle hfit hcompute hr ?_
    split_ifs
    · have hlen' : swapData.length = n := by simp [swapData]
      rw [← storeBytes_append_loadBytes mem req.address swapData (req.dataLength - n), hlen']
    · rw [storeBytes_loadBytes_self, storeBytes_loadBytes_self]

/-! ### The atomics -/

/-- **An atomic is done exactly if** its operands are in the line and, of the stores and the loads, it is an `ADD` or a
`CLR`, or there is nothing to do. -/
theorem atomic_right_iff (host : Endian) (mem : Addr → Byte) (req : ReqTxn) (f : Form) (hop : req.opcode = f.opcode)
    (hlen : req.dataLength ∈ f.sizes) : (∃ o, handleAtomic host mem req = some o ∧ Right f mem req o) ↔ Fair mem req f := by
  cases f with
  | store op => exact right_iff_of_op (.inl rfl) hop hlen
  | load op => exact right_iff_of_op (.inr rfl) hop hlen
  | swap => exact right_iff_of_swap hop hlen
  | compare => exact right_iff_of_compare hop hlen

/-- A byte at the start of a line, and an operand of 1. -/
def oneByte (f : Form) : ReqTxn := ⟨f.opcode, 0x1000, 1, .little, fun _ => 1⟩

theorem atomic_right_add : ∃ o, handleAtomic .little (fun _ => 5) (oneByte (.load .add)) = some o ∧ Right (.load .add) (fun _ => 5) (oneByte (.load .add)) o :=
  (atomic_right_iff .little (fun _ => 5) (oneByte (.load .add)) (.load .add) rfl (by decide)).2 ⟨by decide, trivial⟩

/-- An exclusive or leaves the memory as it is. -/
theorem not_atomic_right_eor :
    ¬∃ o, handleAtomic .little (fun _ => 5) (oneByte (.store .eor)) = some o ∧ Right (.store .eor) (fun _ => 5) (oneByte (.store .eor)) o := by
  rintro ⟨o, ho, hright⟩
  obtain ⟨r, hr, hmem⟩ := hright.written
  obtain ⟨r', hr', hmem'⟩ := of_handleAtomic ho
  have hr₁ : r = [4] := (Option.some.inj hr).symm.trans (by decide)
  have hr₂ : r' = [5] := (Option.some.inj hr').symm.trans (by decide)
  have hat := congrFun (hmem'.symm.trans hmem) 0x1000
  rw [hr₁, hr₂] at hat
  exact absurd hat (by decide)

end LibSystemCTLM.Chi.Atomics
