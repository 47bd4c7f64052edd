import LibSystemCTLM.Foundation.Instances
import Mathlib.Data.BitVec
import Mathlib.Data.List.Perm.Basic

/-!
# Transport of `DVMOp`

The home node takes the data of a `DVMOp` like that of a write, and then snoops all nodes but the requester with two
packets, the addresses of which are put together from the address and the data of the request (`GenerateSnpDVMPacket` of
`iconnect-chi.h`). When all have answered, the requester gets a `Comp`.

The bytes of the data are shifted as they are, as an `int`: from the bit 31 on nothing of them gets to its place, and the
bit 49 of a virtual address is looked for at the wrong place. Nothing is done for the data that is not a whole line, as that of
`DVMOpTxn` is, and there is no `Comp` if nobody is snooped. Besides, all is carried, and answered once (`transported_iff`).

## The model

The request, with the first bytes of its data as the home has them, the lengths of the flits, and the nodes. Each of them
is snooped under an ID of its own. An answer comes behind both packets, and the order of the answers is any.
-/

namespace LibSystemCTLM.Chi.DvmTransport

/-- A `DVMOp`. Its data counts up to the eighth byte. -/
structure Request where
  address : BitVec 64
  data : BitVec 64
  srcID : ℕ

/-- `SnpMsg`, of a packet. -/
structure SnpMsg where
  address : BitVec 64
  vmidExt : BitVec 8 := 0

/-- `DVM::DVMOpSize`, which is also how many bytes `DVMOpTxn` sends. -/
def dvmOpSize : ℕ := 3

/-- `data[i]`. -/
def byte (d : BitVec 64) (i : ℕ) : BitVec 8 := d.extractLsb' (8 * i) 8

/-- `data[i] << n`, of an `int`, and then as a `uint64_t`. From the width of an `int` on the language does not say what comes of
it; the instructions that it is compiled to take the count mod 32. -/
def shl (b : BitVec 8) (n : ℕ) : BitVec 64 := (b.setWidth 32 <<< (n % 32)).signExtend 64

namespace Request

variable (r : Request)

/-- `GetDVMOp`. -/
def dvmOp : BitVec 64 := r.address >>> 11 &&& 7

/-- `GetVAValid`. -/
def vaValid : Bool := r.address.getLsbD 4

/-- The address in the data is a virtual one. The operation 2 is `PICI`. -/
def isVA : Bool := decide (r.dvmOp ≠ 2) && r.vaValid

/-- `GenerateSnpDVMPacket`, of the first packet. -/
def firstPacket : SnpMsg where
  address :=
    let addr := r.address &&& ((1#64 <<< 37 - 1#64) <<< 4)
    if r.isVA = true then
      addr ||| ((byte r.data 5).setWidth 64 >>> 4 &&& 7#64) <<< 41 ||| ((byte r.data 6).setWidth 64 &&& 1#64) <<< 44 |||
        ((byte r.data 6).setWidth 64 >>> 2 &&& 1#64) <<< 45
    else addr
  vmidExt := byte r.data 7

/-- The same, of the second. -/
def secondPacket : SnpMsg where
  address :=
    (if r.isVA = true then
      (byte r.data 0 &&& 0xF0).setWidth 64 ||| shl (byte r.data 1) 8 ||| shl (byte r.data 2) 16 ||| shl (byte r.data 3) 24 |||
        shl (byte r.data 4) 32 ||| ((byte r.data 5).setWidth 64 &&& 15#64) <<< 40 ||| ((byte r.data 5).setWidth 64 >>> 7 &&& 1#64) <<< 44 |||
        ((byte r.data 6).setWidth 64 >>> 7 &&& 1#64) <<< 45
    else (List.range 8).foldl (fun addr i => addr ||| shl (byte r.data i) (i * 8)) 0) ||| 1#64 <<< 3

end Request

/-! ### The home node -/

/-- `AllWriteDataRecieved`, behind one of the flits of these lengths. -/
def allWriteDataReceived : ℕ → List ℕ → Bool
  | _, [] => false
  | received, n :: ns => decide (received + n = 64) || allWriteDataReceived (received + n) ns

section Home

variable (r : Request) {n : ℕ} (nodeID : Fin n → ℕ)

/-- The ports that are snooped. -/
def others : List (Fin n) := (List.finRange n).filter fun p => nodeID p ≠ r.srcID

/-- `ProcessDVM`: what is sent, and through which port. -/
def processDVM : List (Fin n × SnpMsg) := (others r nodeID).flatMap fun p => [(p, r.firstPacket), (p, r.secondPacket)]

/-- `ProcessDat`, over the flits. -/
def processDat (lens : List ℕ) : List (Fin n × SnpMsg) := if allWriteDataReceived 0 lens = true then processDVM r nodeID else []

/-- The trackers of the snoops, and how many `Comp` were sent. -/
structure Snooping (n : ℕ) where
  trackers : List (Fin n × Bool)
  comps : ℕ := 0

/-- `ProcessResp`, with `CheckSnpDone`. -/
def Snooping.processResp (s : Snooping n) (p : Fin n) : Snooping n :=
  let trackers := s.trackers.map fun t => if t.1 = p then (p, true) else t
  { trackers := trackers, comps := if trackers.all (·.2) = true then s.comps + 1 else s.comps }

/-- The snoops, as they are sent. -/
def Snooping.start : Snooping n where
  trackers := (others r nodeID).map fun p => (p, false)

/-- The `Comp` behind these answers. -/
def comps (lens : List ℕ) (answers : List (Fin n)) : ℕ :=
  if allWriteDataReceived 0 lens = true then (answers.foldl Snooping.processResp (Snooping.start r nodeID)).comps else 0

/-- The packets for a port. -/
def sentTo (lens : List ℕ) (p : Fin n) : List SnpMsg := ((processDat r nodeID lens).filter fun m => m.1 = p).map Prod.snd

end Home

/-! ### What is to be carried -/

/-- The first packet: the fields of the request, and of a virtual address the bits 46 to 44, 48, 50 and 52. -/
def firstBit (r : Request) (j : ℕ) : Bool :=
  if j < 4 then false
  else if j < 41 then r.address.getLsbD j
  else if r.isVA = false then false
  else if j < 44 then r.data.getLsbD (j + 3)
  else if j < 47 then r.data.getLsbD (2 * j - 40)
  else false

/-- The second: the address, or of a virtual one the bits 43 to 4, 47, 49 and 51. -/
def secondBit (r : Request) (j : ℕ) : Bool :=
  if j < 4 then true
  else if r.isVA = false ∨ j < 44 then r.data.getLsbD j
  else if j < 47 then r.data.getLsbD (2 * j - 41)
  else false

/-- The two packets carry the request. The address of a snoop has the bits 51 to 3. -/
structure Carries (r : Request) (m₁ m₂ : SnpMsg) : Prop where
  first : ∀ j, 3 ≤ j → j < 52 → m₁.address.getLsbD j = firstBit r j
  second : ∀ j, 3 ≤ j → j < 52 → m₂.address.getLsbD j = secondBit r j
  vmidExt : m₁.vmidExt = byte r.data 7

/-- **The `DVMOp` is transported**: the others get both packets, once, and the requester a `Comp`, behind the last answer. -/
structure Transported (r : Request) {n : ℕ} (nodeID : Fin n → ℕ) (lens : List ℕ) : Prop where
  packets : ∀ p, nodeID p ≠ r.srcID → ∃ m₁ m₂, sentTo r nodeID lens p = [m₁, m₂] ∧ Carries r m₁ m₂
  requester : ∀ p, nodeID p = r.srcID → sentTo r nodeID lens p = []
  comp : ∀ as : List (Fin n), as.Perm (others r nodeID) →
    comps r nodeID lens as = 1 ∧ ∀ bs, bs <+: as → bs ≠ as → comps r nodeID lens bs = 0

/-- What gets to its place as it is shifted. -/
def Fits (r : Request) : Prop :=
  if r.isVA = true then
    (∀ j, 31 ≤ j → j < 40 → r.data.getLsbD j = false) ∧ r.data.getLsbD 51 = false ∧ r.data.getLsbD 52 = false ∧
      r.data.getLsbD 49 = r.data.getLsbD 55
  else
    (∀ j, 32 ≤ j → j < 52 → r.data.getLsbD j = (r.data.getLsbD 31 || r.data.getLsbD 63)) ∧
      ∀ j, 4 ≤ j → j < 32 → r.data.getLsbD (j + 32) = true → r.data.getLsbD j = true

/-! ### Bits -/

section Bits

variable {d : BitVec 64} {r : Request} {i j n : ℕ}

theorem getLsbD_byte (d : BitVec 64) (i j : ℕ) : (byte d i).getLsbD j = (decide (j < 8) && d.getLsbD (8 * i + j)) := by
  rw [byte, BitVec.getLsbD_extractLsb']

/-- An `int` that is shifted by whole bytes, with its sign. -/
theorem getLsbD_shl (d : BitVec 64) (i : ℕ) {n : ℕ} (hn : n % 32 ≤ 24) (hj : j < 64) : (shl (byte d i) n).getLsbD j =
    if j < 32 then decide (n % 32 ≤ j ∧ j < n % 32 + 8) && d.getLsbD (8 * i + (j - n % 32))
    else decide (n % 32 = 24) && d.getLsbD (8 * i + 7) := by
  have hbit : ∀ k < 32, ((byte d i).setWidth 32 <<< (n % 32)).getLsbD k =
      (decide (n % 32 ≤ k ∧ k < n % 32 + 8) && d.getLsbD (8 * i + (k - n % 32))) := by
    intro k hk
    rw [BitVec.getLsbD_shiftLeft, BitVec.getLsbD_setWidth, getLsbD_byte]
    by_cases hle : n % 32 ≤ k
    · simp [hk, hle, show ¬ k < n % 32 by omega, show k - n % 32 < 32 by omega, show k - n % 32 < 8 ↔ k < n % 32 + 8 by omega]
    · simp [hk, hle, show k < n % 32 by omega]
  rw [shl, BitVec.getLsbD_signExtend, BitVec.msb_eq_getLsbD_last]
  simp only [hj, decide_true, Bool.true_and]
  split_ifs with hlt
  · exact hbit j hlt
  · rw [hbit 31 (by omega)]
    by_cases heq : n % 32 = 24
    · simp [heq]
    · simp [heq, show ¬ 31 < n % 32 + 8 by omega]

theorem getLsbD_field (d : BitVec 64) {i p w m : ℕ} (hw : p + w ≤ 8) (hm : ((2 ^ w - 1 : ℕ)) = m) (hj : j < 64) :
    (((byte d i).setWidth 64 >>> p &&& BitVec.ofNat 64 m) <<< n).getLsbD j = (decide (n ≤ j ∧ j < n + w) && d.getLsbD (8 * i + p + (j - n))) := by
  have hmask : ∀ k, (BitVec.ofNat 64 m).getLsbD k = (decide (k < 64) && decide (k < w)) := by
    intro k
    rw [BitVec.getLsbD_ofNat, ← hm, Nat.testBit_two_pow_sub_one]
  rw [BitVec.getLsbD_shiftLeft, BitVec.getLsbD_and, hmask, BitVec.getLsbD_ushiftRight, BitVec.getLsbD_setWidth, getLsbD_byte]
  by_cases hle : n ≤ j
  · by_cases hlt : j < n + w
    · simp [hj, hle, hlt, show ¬ j < n by omega, show j - n < w by omega, show p + (j - n) < 8 by omega, show p + (j - n) < 64 by omega,
        show j - n < 64 by omega, Nat.add_assoc]
    · simp [hlt, show ¬ j - n < w by omega]
  · simp [hle, show j < n by omega]

theorem getLsbD_field_zero (d : BitVec 64) {i w m : ℕ} (hw : w ≤ 8) (hm : ((2 ^ w - 1 : ℕ)) = m) (hj : j < 64) :
    (((byte d i).setWidth 64 &&& BitVec.ofNat 64 m) <<< n).getLsbD j = (decide (n ≤ j ∧ j < n + w) && d.getLsbD (8 * i + (j - n))) := by
  have h := getLsbD_field d (i := i) (p := 0) (n := n) (by omega) hm hj
  rwa [BitVec.ushiftRight_zero] at h

theorem getLsbD_addressMask (hj : j < 64) : ((1#64 <<< 37 - 1#64) <<< 4).getLsbD j = decide (4 ≤ j ∧ j < 41) := by
  have h : ∀ k : Fin 64, ((1#64 <<< 37 - 1#64) <<< 4).getLsbD k = decide (4 ≤ (k : ℕ) ∧ (k : ℕ) < 41) := by decide
  exact h ⟨j, hj⟩

theorem getLsbD_packetNum (hj : j < 64) : (1#64 <<< 3).getLsbD j = decide (j = 3) := by
  have h : ∀ k : Fin 64, (1#64 <<< 3).getLsbD k = decide ((k : ℕ) = 3) := by decide
  exact h ⟨j, hj⟩

/-- Bits that are taken from another place are few. -/
theorem and_getLsbD_congr {a b : ℕ} {p : Prop} [Decidable p] (h : p → a = b) : (decide p && d.getLsbD a) = (decide p && d.getLsbD b) := by
  by_cases hp : p
  · rw [h hp]
  · rw [decide_eq_false hp, Bool.false_and, Bool.false_and]

theorem getLsbD_firstPacket (r : Request) (hj : j < 64) : r.firstPacket.address.getLsbD j =
    ((decide (4 ≤ j ∧ j < 41) && r.address.getLsbD j) || (r.isVA && ((decide (41 ≤ j ∧ j < 44) && r.data.getLsbD (j + 3)) ||
      (decide (j = 44) && r.data.getLsbD 48) || (decide (j = 45) && r.data.getLsbD 50)))) := by
  have h46 := getLsbD_field r.data (i := 5) (p := 4) (w := 3) (m := 7) (n := 41) (by decide) rfl hj
  have h48 := getLsbD_field_zero r.data (i := 6) (w := 1) (m := 1) (n := 44) (by decide) rfl hj
  have h50 := getLsbD_field r.data (i := 6) (p := 2) (w := 1) (m := 1) (n := 45) (by decide) rfl hj
  rw [and_getLsbD_congr (b := j + 3) (by omega)] at h46
  rw [and_getLsbD_congr (b := 48) (by omega)] at h48
  rw [and_getLsbD_congr (b := 50) (by omega)] at h50
  rw [Request.firstPacket]
  dsimp only
  cases r.isVA with
  | false =>
    rw [if_neg (by decide), BitVec.getLsbD_and, getLsbD_addressMask hj, Bool.false_and, Bool.or_false, Bool.and_comm]
  | true =>
    rw [if_pos rfl, BitVec.getLsbD_or, BitVec.getLsbD_or, BitVec.getLsbD_or, BitVec.getLsbD_and, getLsbD_addressMask hj, h46, h48, h50,
      Bool.true_and, Bool.and_comm]
    simp only [show (44 ≤ j ∧ j < 44 + 1) ↔ j = 44 by omega, show (45 ≤ j ∧ j < 45 + 1) ↔ j = 45 by omega, Bool.or_assoc]

theorem getLsbD_low (d : BitVec 64) (hj : j < 64) :
    ((byte d 0 &&& 0xF0).setWidth 64).getLsbD j = (decide (4 ≤ j ∧ j < 8) && d.getLsbD j) := by
  have hmask : ∀ k : Fin 64, (0xF0 : BitVec 8).getLsbD k = decide (4 ≤ (k : ℕ) ∧ (k : ℕ) < 8) := by decide
  rw [BitVec.getLsbD_setWidth, BitVec.getLsbD_and, getLsbD_byte, hmask ⟨j, hj⟩]
  by_cases h : 4 ≤ j ∧ j < 8
  · simp [h, hj]
  · simp [h]

/-- The second packet of a virtual address: the sign of the fourth byte is everywhere behind it, and the fifth byte is at the place of
the first. -/
theorem getLsbD_secondPacket_va (hva : r.isVA = true) (hj : j < 64) : r.secondPacket.address.getLsbD j =
    ((decide (4 ≤ j ∧ j < 32) && r.data.getLsbD j) || (decide (32 ≤ j) && r.data.getLsbD 31) || (decide (j < 8) && r.data.getLsbD (j + 32)) ||
      (decide (40 ≤ j ∧ j < 44) && r.data.getLsbD j) || (decide (j = 44) && r.data.getLsbD 47) || (decide (j = 45) && r.data.getLsbD 55) ||
        decide (j = 3)) := by
  have h8 := getLsbD_shl r.data 1 (n := 8) (by decide) hj
  have h16 := getLsbD_shl r.data 2 (n := 16) (by decide) hj
  have h24 := getLsbD_shl r.data 3 (n := 24) (by decide) hj
  have h32 := getLsbD_shl r.data 4 (n := 32) (by decide) hj
  have h40 := getLsbD_field_zero r.data (i := 5) (w := 4) (m := 15) (n := 40) (by decide) rfl hj
  have h44 := getLsbD_field r.data (i := 5) (p := 7) (w := 1) (m := 1) (n := 44) (by decide) rfl hj
  have h45 := getLsbD_field r.data (i := 6) (p := 7) (w := 1) (m := 1) (n := 45) (by decide) rfl hj
  rw [and_getLsbD_congr (b := j) (by omega)] at h8 h16 h24 h40
  rw [and_getLsbD_congr (b := j + 32) (by omega)] at h32
  rw [and_getLsbD_congr (b := 47) (by omega)] at h44
  rw [and_getLsbD_congr (b := 55) (by omega)] at h45
  rw [Request.secondPacket]
  dsimp only
  rw [if_pos hva]
  simp only [BitVec.getLsbD_or, getLsbD_low r.data hj, h8, h16, h24, h32, h40, h44, h45, getLsbD_packetNum hj]
  rw [Bool.eq_iff_iff]
  simp only [Nat.reduceMod, Nat.reduceMul, Nat.reduceAdd, apply_ite (· = true), Bool.or_eq_true, Bool.and_eq_true, decide_eq_true_eq]
  grind

/-- Of another address: the four last bytes are at the places of the first. -/
theorem getLsbD_secondPacket_pa (hva : r.isVA = false) (hj : j < 64) : r.secondPacket.address.getLsbD j =
    ((decide (j < 32) && (r.data.getLsbD j || r.data.getLsbD (j + 32))) || (decide (32 ≤ j) && (r.data.getLsbD 31 || r.data.getLsbD 63)) ||
      decide (j = 3)) := by
  have h0 := getLsbD_shl r.data 0 (n := 0) (by decide) hj
  have h8 := getLsbD_shl r.data 1 (n := 8) (by decide) hj
  have h16 := getLsbD_shl r.data 2 (n := 16) (by decide) hj
  have h24 := getLsbD_shl r.data 3 (n := 24) (by decide) hj
  have h32 := getLsbD_shl r.data 4 (n := 32) (by decide) hj
  have h40 := getLsbD_shl r.data 5 (n := 40) (by decide) hj
  have h48 := getLsbD_shl r.data 6 (n := 48) (by decide) hj
  have h56 := getLsbD_shl r.data 7 (n := 56) (by decide) hj
  rw [and_getLsbD_congr (b := j) (by omega)] at h0 h8 h16 h24
  rw [and_getLsbD_congr (b := j + 32) (by omega)] at h32 h40 h48 h56
  have hfold : (List.range 8).foldl (fun addr i => addr ||| shl (byte r.data i) (i * 8)) 0 =
      0 ||| shl (byte r.data 0) 0 ||| shl (byte r.data 1) 8 ||| shl (byte r.data 2) 16 ||| shl (byte r.data 3) 24 ||| shl (byte r.data 4) 32 |||
        shl (byte r.data 5) 40 ||| shl (byte r.data 6) 48 ||| shl (byte r.data 7) 56 := rfl
  rw [Request.secondPacket]
  dsimp only
  rw [if_neg (by rw [hva]; decide), hfold]
  simp only [BitVec.getLsbD_or, h0, h8, h16, h24, h32, h40, h48, h56, getLsbD_packetNum hj]
  rw [Bool.eq_iff_iff]
  simp only [Nat.reduceMod, Nat.reduceMul, Nat.reduceAdd, apply_ite (· = true), Bool.or_eq_true, Bool.and_eq_true, decide_eq_true_eq]
  grind

/-- In the first packet, only the bit 52 of a virtual address has no place. -/
theorem firstPacket_iff (r : Request) : (∀ j, 3 ≤ j → j < 52 → r.firstPacket.address.getLsbD j = firstBit r j) ↔
    (r.isVA = true → r.data.getLsbD 52 = false) := by
  constructor
  · intro h hva
    have h46 := h 46 (by omega) (by omega)
    rw [getLsbD_firstPacket r (by omega)] at h46
    simpa [firstBit, hva] using h46.symm
  · intro h j h3 hj
    rw [getLsbD_firstPacket r (by omega), firstBit]
    generalize r.data.getLsbD = d at h
    cases hva : r.isVA with
    | false => grind
    | true =>
      have h52 : d 52 = false := h hva
      rcases (by omega : j < 44 ∨ j = 44 ∨ j = 45 ∨ j = 46 ∨ 47 ≤ j) with hlt | rfl | rfl | rfl | hge
      · grind
      · simp
      · simp
      · simp [h52]
      · grind

/-- In the second, of a virtual address: the sign of the fourth byte is to be 0, as what the fifth would add, the bit 51 has no place, and
the bit 55 has that of the bit 49. -/
theorem secondPacket_iff_va {r : Request} (hva : r.isVA = true) :
    (∀ j, 3 ≤ j → j < 52 → r.secondPacket.address.getLsbD j = secondBit r j) ↔
      (∀ j, 31 ≤ j → j < 40 → r.data.getLsbD j = false) ∧ r.data.getLsbD 51 = false ∧ r.data.getLsbD 49 = r.data.getLsbD 55 := by
  have hbit : ∀ j, 3 ≤ j → j < 52 → (r.secondPacket.address.getLsbD j = secondBit r j ↔ _ = secondBit r j) :=
    fun j _ hj => by rw [getLsbD_secondPacket_va hva (by omega)]
  simp only [secondBit, hva] at hbit ⊢
  generalize r.data.getLsbD = d at hbit ⊢
  constructor
  · intro h
    have h31 : d 31 = false := by simpa using (hbit 47 (by omega) (by omega)).1 (h 47 (by omega) (by omega))
    have h45 := (hbit 45 (by omega) (by omega)).1 (h 45 (by omega) (by omega))
    have h46 := (hbit 46 (by omega) (by omega)).1 (h 46 (by omega) (by omega))
    refine ⟨fun j hj hlt => ?_, by simpa [h31] using h46.symm, by simpa [h31] using h45.symm⟩
    rcases hj.eq_or_lt with rfl | hgt
    · exact h31
    · -- the fifth byte is at the place of the first, and nothing of it is here
      have hlow := (hbit j (by omega) (by omega)).1 (h j (by omega) (by omega))
      grind
  · rintro ⟨hzero, h51, h49⟩ j h3 hj
    refine (hbit j h3 hj).2 ?_
    have h31 : d 31 = false := hzero 31 (by omega) (by omega)
    rcases (by omega : j < 44 ∨ j = 44 ∨ j = 45 ∨ j = 46 ∨ 47 ≤ j) with hlt | rfl | rfl | rfl | hge
    · have hz := hzero (j + 32)
      have hz' := hzero j
      grind
    · simp [h31]
    · simp [h31, h49]
    · simp [h31, h51]
    · grind

/-- Of another address: from the bit 32 on there is nothing but the signs, and each bit below has another one in its place. -/
theorem secondPacket_iff_pa {r : Request} (hva : r.isVA = false) :
    (∀ j, 3 ≤ j → j < 52 → r.secondPacket.address.getLsbD j = secondBit r j) ↔
      (∀ j, 32 ≤ j → j < 52 → r.data.getLsbD j = (r.data.getLsbD 31 || r.data.getLsbD 63)) ∧
        ∀ j, 4 ≤ j → j < 32 → r.data.getLsbD (j + 32) = true → r.data.getLsbD j = true := by
  have hbit : ∀ j, 3 ≤ j → j < 52 → (r.secondPacket.address.getLsbD j = secondBit r j ↔ _ = secondBit r j) :=
    fun j _ hj => by rw [getLsbD_secondPacket_pa hva (by omega)]
  simp only [secondBit, hva, true_or, if_true] at hbit ⊢
  generalize r.data.getLsbD = d at hbit ⊢
  constructor
  · intro h
    refine ⟨fun j h32 hj => ?_, fun j h4 hj hset => ?_⟩
    · have hj := (hbit j (by omega) hj).1 (h j (by omega) hj)
      grind
    · have hj := (hbit j (by omega) (by omega)).1 (h j (by omega) (by omega))
      grind
  · rintro ⟨hsign, hlow⟩ j h3 hj
    refine (hbit j h3 hj).2 ?_
    have hs := hsign j
    have hl := hlow j
    grind

/-- **The packets carry the request exactly if it fits.** -/
theorem carries_iff (r : Request) : Carries r r.firstPacket r.secondPacket ↔ Fits r := by
  have hiff : Carries r r.firstPacket r.secondPacket ↔ (r.isVA = true → r.data.getLsbD 52 = false) ∧
      ∀ j, 3 ≤ j → j < 52 → r.secondPacket.address.getLsbD j = secondBit r j :=
    ⟨fun h => ⟨(firstPacket_iff r).1 h.first, h.second⟩, fun h => ⟨(firstPacket_iff r).2 h.1, h.2, rfl⟩⟩
  rw [hiff, Fits]
  cases hva : r.isVA with
  | true =>
    rw [secondPacket_iff_va hva, if_pos rfl]
    constructor
    · rintro ⟨h52, hzero, h51, h49⟩
      exact ⟨hzero, h51, h52 rfl, h49⟩
    · rintro ⟨hzero, h51, h52, h49⟩
      exact ⟨fun _ => h52, hzero, h51, h49⟩
  | false =>
    rw [secondPacket_iff_pa hva, if_neg (by decide)]
    exact ⟨fun h => h.2, fun h => ⟨nofun, h⟩⟩

end Bits

/-! ### The packets and the `Comp` -/

section Transport

variable {r : Request} {n : ℕ} {nodeID : Fin n → ℕ} {lens : List ℕ} {p : Fin n}

theorem mem_others : p ∈ others r nodeID ↔ nodeID p ≠ r.srcID := by
  simp [others]

theorem nodup_others (r : Request) (nodeID : Fin n → ℕ) : (others r nodeID).Nodup := (List.nodup_finRange n).filter _

/-- One node after the other, with two packets each. -/
theorem filter_packets {α β : Type*} [DecidableEq α] (x y : β) (a : α) {as : List α} (has : as.Nodup) :
    ((as.flatMap fun b => [(b, x), (b, y)]).filter fun m => m.1 = a).map Prod.snd = if a ∈ as then [x, y] else [] := by
  induction as with
  | nil => rfl
  | cons b as ih =>
    obtain ⟨hb, has⟩ := List.nodup_cons.1 has
    rw [List.flatMap_cons, List.filter_append, List.map_append, ih has]
    by_cases heq : b = a
    · subst heq
      simp [hb]
    · simp [heq, Ne.symm heq]

theorem sentTo_of_ne (hlens : allWriteDataReceived 0 lens = true) (hp : nodeID p ≠ r.srcID) :
    sentTo r nodeID lens p = [r.firstPacket, r.secondPacket] := by
  rw [sentTo, processDat, if_pos hlens, processDVM, filter_packets _ _ _ (nodup_others r nodeID), if_pos (mem_others.2 hp)]

theorem sentTo_of_eq (hlens : allWriteDataReceived 0 lens = true) (hp : nodeID p = r.srcID) : sentTo r nodeID lens p = [] := by
  rw [sentTo, processDat, if_pos hlens, processDVM, filter_packets _ _ _ (nodup_others r nodeID), if_neg fun h => mem_others.1 h hp]

theorem trackers_foldl (r : Request) (nodeID : Fin n → ℕ) (as : List (Fin n)) :
    (as.foldl Snooping.processResp (Snooping.start r nodeID)).trackers = (others r nodeID).map fun p => (p, decide (p ∈ as)) := by
  induction as using List.reverseRecOn with
  | nil => simp [Snooping.start]
  | append_singleton as a ih =>
    rw [List.foldl_append, List.foldl_cons, List.foldl_nil, Snooping.processResp]
    dsimp only
    rw [ih, List.map_map]
    refine List.map_congr_left fun p _ => ?_
    by_cases heq : p = a
    · simp [heq]
    · simp [heq]

theorem comps_foldl_concat (r : Request) (nodeID : Fin n → ℕ) (as : List (Fin n)) (a : Fin n) :
    ((as ++ [a]).foldl Snooping.processResp (Snooping.start r nodeID)).comps =
      (as.foldl Snooping.processResp (Snooping.start r nodeID)).comps + if ∀ p ∈ others r nodeID, p ∈ as ++ [a] then 1 else 0 := by
  have htrackers := trackers_foldl r nodeID (as ++ [a])
  rw [List.foldl_append, List.foldl_cons, List.foldl_nil, Snooping.processResp] at htrackers ⊢
  dsimp only at htrackers ⊢
  rw [htrackers]
  by_cases hall : ∀ p ∈ others r nodeID, p ∈ as ++ [a]
  · rw [if_pos hall, if_pos (by simpa using hall)]
  · rw [if_neg hall, if_neg (by simpa using hall), Nat.add_zero]

/-- No `Comp` while somebody has not answered. -/
theorem comps_of_missing (hp : p ∈ others r nodeID) {as : List (Fin n)} (hmiss : p ∉ as) :
    (as.foldl Snooping.processResp (Snooping.start r nodeID)).comps = 0 := by
  induction as using List.reverseRecOn with
  | nil => rfl
  | append_singleton as a ih =>
    rw [comps_foldl_concat, ih fun h => hmiss (List.mem_append_left _ h), if_neg fun h => hmiss (h p hp)]

/-- One `Comp` behind the last answer, if there is one. -/
theorem comps_of_perm {as : List (Fin n)} (hperm : as.Perm (others r nodeID)) (hne : others r nodeID ≠ []) :
    (as.foldl Snooping.processResp (Snooping.start r nodeID)).comps = 1 := by
  obtain rfl | ⟨bs, a, rfl⟩ := List.eq_nil_or_concat' as
  · exact absurd hperm.nil_eq.symm hne
  · have hlast : a ∉ bs := fun h =>
      List.disjoint_of_nodup_append (hperm.nodup_iff.2 (nodup_others r nodeID)) h (List.mem_singleton_self a)
    rw [comps_foldl_concat, comps_of_missing (hperm.mem_iff.1 (List.mem_append_right _ (List.mem_singleton_self a))) hlast,
      if_pos fun p hp => hperm.mem_iff.2 hp]

/-- **What is transported**: it is exactly the `DVMOp` the data of which is a whole line and fits, if there is somebody else. -/
theorem transported_iff (r : Request) (nodeID : Fin n → ℕ) (lens : List ℕ) : Transported r nodeID lens ↔
    allWriteDataReceived 0 lens = true ∧ (∃ p, nodeID p ≠ r.srcID) ∧ Fits r := by
  constructor
  · intro h
    have hcomp := (h.comp _ (List.Perm.refl _)).1
    rw [comps] at hcomp
    have hlens : allWriteDataReceived 0 lens = true := by
      by_contra hno
      rw [if_neg hno] at hcomp
      omega
    rw [if_pos hlens] at hcomp
    have hne : others r nodeID ≠ [] := by
      intro hnil
      rw [hnil, List.foldl_nil, Snooping.start] at hcomp
      exact absurd hcomp Nat.zero_ne_one
    obtain ⟨p, hp⟩ := List.exists_mem_of_ne_nil _ hne
    obtain ⟨m₁, m₂, hsent, hcarries⟩ := h.packets p (mem_others.1 hp)
    rw [sentTo_of_ne hlens (mem_others.1 hp)] at hsent
    obtain ⟨rfl, rfl⟩ : r.firstPacket = m₁ ∧ r.secondPacket = m₂ := by simpa using hsent
    exact ⟨hlens, ⟨p, mem_others.1 hp⟩, (carries_iff r).1 hcarries⟩
  · rintro ⟨hlens, ⟨p, hp⟩, hfits⟩
    refine ⟨fun q hq => ⟨_, _, sentTo_of_ne hlens hq, (carries_iff r).2 hfits⟩, fun q hq => sentTo_of_eq hlens hq, fun as hperm => ?_⟩
    rw [comps, if_pos hlens]
    refine ⟨comps_of_perm hperm (List.ne_nil_of_mem (mem_others.2 hp)), fun bs hpre hne => ?_⟩
    rw [comps, if_pos hlens]
    -- the first answer that is not there
    obtain ⟨cs, rfl⟩ := hpre
    obtain _ | ⟨c, cs⟩ := cs
    · exact absurd (List.append_nil bs).symm hne
    · have hmem : c ∈ bs ++ c :: cs := List.mem_append_right _ List.mem_cons_self
      refine comps_of_missing (hperm.mem_iff.1 hmem) fun h => ?_
      exact List.disjoint_of_nodup_append (hperm.nodup_iff.2 (nodup_others r nodeID)) h List.mem_cons_self

end Transport

/-- With the data of `DVMOpTxn`, whatever it is. -/
theorem not_transported : ¬ Transported { address := 0, data := 0, srcID := 0 } (Fin.val : Fin 2 → ℕ) [dvmOpSize] := by
  intro h
  exact absurd (h.comp [1] (by decide)).1 (by decide)

end LibSystemCTLM.Chi.DvmTransport
