import LibSystemCTLM.Foundation.BitFields
import LibSystemCTLM.Tlm.Payload
import Mathlib.Data.List.Basic

/-!
# Contexts of the QDMA

The contexts of `qdma.h` are eight words each, which the driver writes as a whole, and the device reads as
packed records (`qdma-ctx.inc`). A context is a word of 256 bits here and a member of it a bit field. The two
flavours have some of them at different places.
-/

namespace LibSystemCTLM.Qdma

open Foundation Tlm

/-- `qdma_cpm4` and `qdma_cpm5`. -/
inductive Flavour where
  | cpm4 | cpm5
  deriving DecidableEq

/-- `QDMA_U32_PER_CONTEXT` words. -/
abbrev Ctx := BitVec 256

/-! ### `sw_ctx` -/

namespace SwCtx

variable (c : Ctx)

def pidx : BitVec 16 := c.extractLsb' 0 16

def irqArm : Bool := c.getLsbD 16

def writebackEn : Bool := c.getLsbD 52

def irqEnabled : Bool := c.getLsbD 53

def descBaseLow : BitVec 32 := c.extractLsb' 64 32

def descBaseHigh : BitVec 32 := c.extractLsb' 96 32

/-- `((uint64_t)sw_ctx->desc_base_high << 32) + sw_ctx->desc_base_low`. -/
def base : Addr := (descBaseHigh c).setWidth 64 <<< 32 + (descBaseLow c).setWidth 64

/-- `8 << sw_ctx->desc_size`. -/
def descSize : ℕ := 8 <<< (c.extractLsb' 48 2).toNat

/-- `ring_sizes`. -/
def ringSizes : List ℕ := [2048, 64, 128, 192, 256, 384, 512, 768, 1024, 1536, 3072, 4096, 6144, 8192, 12288, 16384]

/-- `ring_sizes[sw_ctx->ring_size]`. -/
def ringSize : ℕ := ringSizes.getD (c.extractLsb' 44 4).toNat 0

/-- The address of a descriptor of the ring. The status descriptor is the one behind the last. -/
def descAddr (i : ℕ) : Addr := base c + BitVec.ofNat 64 (descSize c * i)

def setPidx (v : BitVec 16) : Ctx := deposit c 0 v

@[simp] theorem pidx_setPidx (v : BitVec 16) : pidx (setPidx c v) = v := extract_deposit c v (by decide)

theorem extract_setPidx (v : BitVec 16) {pos len : ℕ} (h : 16 ≤ pos) : (setPidx c v).extractLsb' pos len = c.extractLsb' pos len :=
  extract_deposit_of_disjoint c v (.inr h)

@[simp] theorem ringSize_setPidx (v : BitVec 16) : ringSize (setPidx c v) = ringSize c := by
  rw [ringSize, ringSize, extract_setPidx c v (by decide)]

theorem ringSize_bounds : 0 < ringSize c ∧ ringSize c ≤ 16384 := by
  have hall : ∀ i : Fin 16, 0 < ringSizes.getD i 0 ∧ ringSizes.getD i 0 ≤ 16384 := by decide
  exact hall ⟨(c.extractLsb' 44 4).toNat, (c.extractLsb' 44 4).isLt⟩

end SwCtx

/-! ### `hw_ctx` -/

namespace HwCtx

def cidx (c : Ctx) : BitVec 16 := c.extractLsb' 0 16

def setCidx (c : Ctx) (v : BitVec 16) : Ctx := deposit c 0 v

@[simp] theorem cidx_setCidx (c : Ctx) (v : BitVec 16) : cidx (setCidx c v) = v := extract_deposit c v (by decide)

end HwCtx

/-! ### `intr_ctx` -/

namespace IntrCtx

variable (f : Flavour) (c : Ctx)

def vectorLen : Flavour → ℕ
  | .cpm4 => 5
  | .cpm5 => 11

/-- Behind the vector, `rsvd` and `status`. -/
def colorPos : ℕ := vectorLen f + 3

def valid : Bool := c.getLsbD 0

def vector : ℕ := (c.extractLsb' 1 (vectorLen f)).toNat

def color : Bool := c.getLsbD (colorPos f)

def baddr : BitVec 52 := c.extractLsb' (colorPos f + 1) 52

def pageSize : BitVec 3 := c.extractLsb' (colorPos f + 53) 3

def pidx : BitVec 12 := c.extractLsb' (colorPos f + 56) 12

/-- `(1 + intr_ctx->page_size) * 4096`. -/
def size : ℕ := (1 + (pageSize f c).toNat) * 4096

def setPidx (v : BitVec 12) : Ctx := deposit c (colorPos f + 56) v

def setColor (b : Bool) : Ctx := deposit c (colorPos f) (BitVec.ofBool b)

def invalidate : Ctx := deposit c 0 (0#1)

theorem colorPos_lt : colorPos f < 15 := by cases f <;> decide

@[simp] theorem valid_setPidx (v : BitVec 12) : valid (setPidx f c v) = valid c := getLsbD_deposit_of_disjoint c v (.inl (by omega))

@[simp] theorem color_setPidx (v : BitVec 12) : color f (setPidx f c v) = color f c :=
  getLsbD_deposit_of_disjoint c v (.inl (by omega))

@[simp] theorem vector_setPidx (v : BitVec 12) : vector f (setPidx f c v) = vector f c := by
  rw [vector, vector, setPidx, extract_deposit_of_disjoint c v (.inl (by unfold colorPos; omega))]

@[simp] theorem size_setPidx (v : BitVec 12) : size f (setPidx f c v) = size f c := by
  rw [size, size, pageSize, pageSize, setPidx, extract_deposit_of_disjoint c v (.inl (by omega))]

@[simp] theorem baddr_setPidx (v : BitVec 12) : baddr f (setPidx f c v) = baddr f c :=
  extract_deposit_of_disjoint c v (.inl (by omega))

@[simp] theorem color_setColor (b : Bool) : color f (setColor f c b) = b := by
  have hlt := colorPos_lt f
  rw [color, setColor, getLsbD_deposit c _ _ (by omega), if_pos (by omega), Nat.sub_self]
  cases b <;> rfl

@[simp] theorem size_setColor (b : Bool) : size f (setColor f c b) = size f c := by
  rw [size, size, pageSize, pageSize, setColor, extract_deposit_of_disjoint c _ (.inr (by omega))]

@[simp] theorem valid_invalidate : valid (invalidate c) = false := by
  rw [valid, invalidate, getLsbD_deposit c _ _ (by decide), if_pos (by decide)]
  rfl

end IntrCtx

/-! ### `intr_ring_entry` -/

/-- An entry of an interrupt ring. -/
structure Entry where
  qid : ℕ
  h2c : Bool
  color : Bool
  cidx : BitVec 16
  pidx : BitVec 16

/-- The word of an entry, over what was on the stack. -/
def Entry.encode (f : Flavour) (e : Entry) (stack : BitVec 64) : BitVec 64 :=
  let w := deposit (deposit (deposit (deposit stack 0 e.pidx) 16 e.cidx) 32 (BitVec.ofBool e.color)) 33 (0#2)
  match f with
  | .cpm4 => deposit (deposit (deposit (deposit w 35 (0#4)) 51 (BitVec.ofBool !e.h2c)) 52 (BitVec.ofNat 11 e.qid)) 63 (BitVec.ofBool e.color)
  | .cpm5 => deposit (deposit (deposit (deposit w 35 (0#2)) 38 (BitVec.ofBool !e.h2c)) 39 (BitVec.ofNat 24 e.qid)) 63 (BitVec.ofBool e.color)

end LibSystemCTLM.Qdma
