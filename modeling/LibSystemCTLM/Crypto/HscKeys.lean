import LibSystemCTLM.Foundation.Blocks
import LibSystemCTLM.Foundation.Endian
import LibSystemCTLM.Foundation.Runs
import LibSystemCTLM.Tlm.Payload

/-!
# The keys of the high-speed crypto engine

`xilinx_hsc` keeps 1024 keys of eight words for each direction in an array of eight rows of 1024 words. The key
`n` begins at the word `n` of the first row, where the word `8 * n` is meant: it lies over its seven neighbours on
either side. Only the first word of key 0 and the last one of key 1023 are in no other key.

So a key that is written changes no other key exactly if it has nothing new but in these two words
(`runOk_stores_iff`). Keys whose indices are eight apart do not touch each other (`keyAt_of_spaced`).

## The model

A step is an access to the registers, a packet or a reset. With the arrays is kept what was written last to each index. An
access to the register behind the last one, which `user_if_b_transport` lets pass, and an index of a packet below zero, which
its 20 bits allow, have no step: their words are outside of the arrays.

## Honest scope

Of a packet is modelled what is done with the key. Its header, the tag and what is not encrypted are left out.
-/

namespace LibSystemCTLM.Crypto

open Foundation Tlm

/-! ### `crc32.h` -/

def crc32Table : List (BitVec 32) :=
  [0x00000000, 0x77073096, 0xee0e612c, 0x990951ba, 0x076dc419, 0x706af48f, 0xe963a535, 0x9e6495a3, 0x0edb8832, 0x79dcb8a4, 0xe0d5e91e,
    0x97d2d988, 0x09b64c2b, 0x7eb17cbd, 0xe7b82d07, 0x90bf1d91, 0x1db71064, 0x6ab020f2, 0xf3b97148, 0x84be41de, 0x1adad47d, 0x6ddde4eb,
    0xf4d4b551, 0x83d385c7, 0x136c9856, 0x646ba8c0, 0xfd62f97a, 0x8a65c9ec, 0x14015c4f, 0x63066cd9, 0xfa0f3d63, 0x8d080df5, 0x3b6e20c8,
    0x4c69105e, 0xd56041e4, 0xa2677172, 0x3c03e4d1, 0x4b04d447, 0xd20d85fd, 0xa50ab56b, 0x35b5a8fa, 0x42b2986c, 0xdbbbc9d6, 0xacbcf940,
    0x32d86ce3, 0x45df5c75, 0xdcd60dcf, 0xabd13d59, 0x26d930ac, 0x51de003a, 0xc8d75180, 0xbfd06116, 0x21b4f4b5, 0x56b3c423, 0xcfba9599,
    0xb8bda50f, 0x2802b89e, 0x5f058808, 0xc60cd9b2, 0xb10be924, 0x2f6f7c87, 0x58684c11, 0xc1611dab, 0xb6662d3d, 0x76dc4190, 0x01db7106,
    0x98d220bc, 0xefd5102a, 0x71b18589, 0x06b6b51f, 0x9fbfe4a5, 0xe8b8d433, 0x7807c9a2, 0x0f00f934, 0x9609a88e, 0xe10e9818, 0x7f6a0dbb,
    0x086d3d2d, 0x91646c97, 0xe6635c01, 0x6b6b51f4, 0x1c6c6162, 0x856530d8, 0xf262004e, 0x6c0695ed, 0x1b01a57b, 0x8208f4c1, 0xf50fc457,
    0x65b0d9c6, 0x12b7e950, 0x8bbeb8ea, 0xfcb9887c, 0x62dd1ddf, 0x15da2d49, 0x8cd37cf3, 0xfbd44c65, 0x4db26158, 0x3ab551ce, 0xa3bc0074,
    0xd4bb30e2, 0x4adfa541, 0x3dd895d7, 0xa4d1c46d, 0xd3d6f4fb, 0x4369e96a, 0x346ed9fc, 0xad678846, 0xda60b8d0, 0x44042d73, 0x33031de5,
    0xaa0a4c5f, 0xdd0d7cc9, 0x5005713c, 0x270241aa, 0xbe0b1010, 0xc90c2086, 0x5768b525, 0x206f85b3, 0xb966d409, 0xce61e49f, 0x5edef90e,
    0x29d9c998, 0xb0d09822, 0xc7d7a8b4, 0x59b33d17, 0x2eb40d81, 0xb7bd5c3b, 0xc0ba6cad, 0xedb88320, 0x9abfb3b6, 0x03b6e20c, 0x74b1d29a,
    0xead54739, 0x9dd277af, 0x04db2615, 0x73dc1683, 0xe3630b12, 0x94643b84, 0x0d6d6a3e, 0x7a6a5aa8, 0xe40ecf0b, 0x9309ff9d, 0x0a00ae27,
    0x7d079eb1, 0xf00f9344, 0x8708a3d2, 0x1e01f268, 0x6906c2fe, 0xf762575d, 0x806567cb, 0x196c3671, 0x6e6b06e7, 0xfed41b76, 0x89d32be0,
    0x10da7a5a, 0x67dd4acc, 0xf9b9df6f, 0x8ebeeff9, 0x17b7be43, 0x60b08ed5, 0xd6d6a3e8, 0xa1d1937e, 0x38d8c2c4, 0x4fdff252, 0xd1bb67f1,
    0xa6bc5767, 0x3fb506dd, 0x48b2364b, 0xd80d2bda, 0xaf0a1b4c, 0x36034af6, 0x41047a60, 0xdf60efc3, 0xa867df55, 0x316e8eef, 0x4669be79,
    0xcb61b38c, 0xbc66831a, 0x256fd2a0, 0x5268e236, 0xcc0c7795, 0xbb0b4703, 0x220216b9, 0x5505262f, 0xc5ba3bbe, 0xb2bd0b28, 0x2bb45a92,
    0x5cb36a04, 0xc2d7ffa7, 0xb5d0cf31, 0x2cd99e8b, 0x5bdeae1d, 0x9b64c2b0, 0xec63f226, 0x756aa39c, 0x026d930a, 0x9c0906a9, 0xeb0e363f,
    0x72076785, 0x05005713, 0x95bf4a82, 0xe2b87a14, 0x7bb12bae, 0x0cb61b38, 0x92d28e9b, 0xe5d5be0d, 0x7cdcefb7, 0x0bdbdf21, 0x86d3d2d4,
    0xf1d4e242, 0x68ddb3f8, 0x1fda836e, 0x81be16cd, 0xf6b9265b, 0x6fb077e1, 0x18b74777, 0x88085ae6, 0xff0f6a70, 0x66063bca, 0x11010b5c,
    0x8f659eff, 0xf862ae69, 0x616bffd3, 0x166ccf45, 0xa00ae278, 0xd70dd2ee, 0x4e048354, 0x3903b3c2, 0xa7672661, 0xd06016f7, 0x4969474d,
    0x3e6e77db, 0xaed16a4a, 0xd9d65adc, 0x40df0b66, 0x37d83bf0, 0xa9bcae53, 0xdebb9ec5, 0x47b2cf7f, 0x30b5ffe9, 0xbdbdf21c, 0xcabac28a,
    0x53b39330, 0x24b4a3a6, 0xbad03605, 0xcdd70693, 0x54de5729, 0x23d967bf, 0xb3667a2e, 0xc4614ab8, 0x5d681b02, 0x2a6f2b94, 0xb40bbe37,
    0xc30c8ea1, 0x5a05df1b, 0x2d02ef8d]

def crc32 (crc : BitVec 32) (buf : List Byte) : BitVec 32 :=
  (buf.foldl (fun (crc : BitVec 32) c => crc32Table.getD ((crc ^^^ c.setWidth 32) &&& 0xff).toNat 0 ^^^ crc >>> 8) (crc ^^^ 0xffffffff)) ^^^ 0xffffffff

/-! ### Registers -/

/-- `XILINX_HSC_MAX_REGS`. -/
def maxRegs : ℕ := 0x7d00 / 4

/-- `XILINX_HSC_MAX_KEYS`. -/
def maxKeys : ℕ := 1024

/-- Transmit, which encrypts, and receive, which decrypts. -/
inductive Direction where
  | tx | rx
  deriving DecidableEq

namespace Direction

/-- `TX_INDIRECT_AXS_CTRL_REG`, `RX_INDIRECT_AXS_CTRL_REG`. -/
def ctrlReg : Direction → ℕ
  | .tx => 0x4000 / 4
  | .rx => 0x6000 / 4

/-- `TX_INDIRECT_AXS_WDATA_REG`, `RX_INDIRECT_AXS_WDATA_REG`. -/
def wdataReg (n : ℕ) : Direction → ℕ
  | .tx => (0x4800 + n * 4) / 4
  | .rx => (0x6800 + n * 4) / 4

/-- `TX_INDIRECT_AXS_RDATA_REG`, `RX_INDIRECT_AXS_RDATA_REG`. -/
def rdataReg (n : ℕ) : Direction → ℕ
  | .tx => (0x4c00 + n * 4) / 4
  | .rx => (0x6c00 + n * 4) / 4

end Direction

/-- A key: `XILINX_HSC_MAX_KEY_SIZE` words. -/
abbrev Key := Fin 8 → BitVec 32

/-- The bytes of a key. -/
def Key.bytes (key : Key) : List Byte := (List.ofFn key).flatMap (leBytes 4)

/-- `ind_access`, a word as a little-endian machine lays out its fields. -/
structure IndAccess where
  word : BitVec 32
  deriving DecidableEq

namespace IndAccess

variable (c : IndAccess)

def ena : Bool := c.word.getLsbD 0

def wr : Bool := c.word.getLsbD 1

def grp : BitVec 2 := c.word.extractLsb' 2 2

def num : ℕ := (c.word.extractLsb' 8 10).toNat

theorem num_lt : c.num < maxKeys := (c.word.extractLsb' 8 10).isLt

end IndAccess

/-- `regs`, and the arrays of keys as the words that they lie in. -/
structure Hsc where
  regs : ℕ → BitVec 32
  keys : Direction → ℕ → BitVec 32

namespace Hsc

variable (s : Hsc) (d : Direction)

/-- The control register of a direction. -/
def ctrl : IndAccess := ⟨s.regs d.ctrlReg⟩

/-- What the write data registers hold. -/
def wdata : Key := fun i => s.regs (d.wdataReg i)

/-- The key at an index, eight words from `keys[0][n]` on. -/
def keyAt (n : ℕ) : Key := Blocks.read (s.keys d) n 8

/-- What a digest that is read leaves in the read data registers. -/
def setRdata (v : BitVec 32) : Hsc :=
  { s with regs := fun r => if r = d.rdataReg 0 then v else if ∃ i : Fin 8, r = d.rdataReg i then 0 else s.regs r }

/-- The key that an access to the control register writes. -/
def keyWrite? : Option (ℕ × Key) :=
  if (s.ctrl d).ena = true ∧ (s.ctrl d).grp = 0 ∧ (s.ctrl d).wr = true then some ((s.ctrl d).num, s.wdata d) else none

/-- The index of which it reads the digest. -/
def keyRead? : Option ℕ := if (s.ctrl d).ena = true ∧ (s.ctrl d).grp = 0 ∧ (s.ctrl d).wr = false then some (s.ctrl d).num else none

/-- `reg_indirect_access`. -/
def regIndirectAccess : Hsc :=
  let c := s.ctrl d
  if c.ena = false then s
  else
    let t := { s with regs := Function.update s.regs d.ctrlReg (c.word &&& ~~~1#32) }
    -- the other groups have a warning at most
    if c.grp = 0 then
      if c.wr = true then { t with keys := Function.update t.keys d (Blocks.write (t.keys d) c.num (t.wdata d)) }
      else t.setRdata d (crc32 0 (t.keyAt d c.num).bytes)
    else t

end Hsc

/-- An access to the user interface. -/
structure UserTrans where
  command : Command
  address : Addr
  data : List Byte
  byteEnable : Bool := false
  streamingWidth : ℕ := 4
  response : Response := .incomplete
  deriving DecidableEq

/-- The word that `memcpy` makes of at most four bytes. -/
def wordOf (data : List Byte) : BitVec 32 := leWord 4 (data ++ List.replicate (4 - data.length) 0)

namespace UserTrans

variable (tr : UserTrans)

/-- The register. -/
def reg : ℕ := tr.address.toNat / 4

/-- The checks. -/
def refused : Bool := tr.byteEnable || decide (4 < tr.data.length) || decide (tr.streamingWidth < tr.data.length) || decide (maxRegs < tr.reg)

/-- The direction whose control register is written. -/
def triggers : Option Direction :=
  if tr.refused = false ∧ tr.command = .write then if tr.reg = Direction.tx.ctrlReg then some .tx else if tr.reg = Direction.rx.ctrlReg then some .rx else none
  else none

/-- A register that cannot be written. -/
def readOnly : Bool := decide (tr.reg = 0 ∨ ∃ i : Fin 8, tr.reg = Direction.tx.rdataReg i ∨ tr.reg = Direction.rx.rdataReg i)

end UserTrans

/-- `HSC_REVID`. -/
def hscRevid : BitVec 32 := 1

/-- `user_if_b_transport`; there is no register behind the last one. -/
def Hsc.userIf (s : Hsc) (tr : UserTrans) : Option (Hsc × UserTrans) :=
  if tr.refused = true then some (s, { tr with response := .error })
  else if tr.reg = maxRegs then none
  else
    match tr.command with
    | .read =>
      let v := if tr.reg = 0 then hscRevid else s.regs tr.reg
      some (s, { tr with data := (leBytes 4 v).take tr.data.length, response := .ok })
    | .write =>
      let written := { s with regs := Function.update s.regs tr.reg (wordOf tr.data) }
      let s' :=
        if tr.readOnly = true then s
        else match tr.triggers with
          | some d => written.regIndirectAccess d
          | none => written
      some (s', { tr with response := .ok })
    | .ignore => some (s, { tr with response := .error })

/-! ### Packets -/

/-- What a packet is encrypted or decrypted with, and the part of it that is. -/
structure Packet where
  saIndex : BitVec 20
  cipherSuite : BitVec 2
  extKey : Key
  data : List Byte
  offset : ℕ
  stop : ℕ

namespace Packet

variable (p : Packet)

/-- The bytes of the key that are used. The suite is a signed number, and `GCM_AES_XPN_128`, which is 2, is none of two bits. -/
def keysize : ℕ := if p.cipherSuite.toInt = 0 ∨ p.cipherSuite.toInt = 2 then 16 else 32

/-- The loop over the bytes from `offset` on. -/
def crypt (key : Key) : List Byte := (List.range' p.offset (p.stop - p.offset)).map fun i => p.data.getD i 0 ^^^ key.bytes.getD (i % p.keysize) 0

/-- The key in use: the internal one for the indices below `XILINX_HSC_MAX_KEYS`. -/
def key (s : Hsc) (d : Direction) : Option Key :=
  if p.saIndex.toInt ≥ maxKeys then some p.extKey
  else if 0 ≤ p.saIndex.toInt then some (s.keyAt d p.saIndex.toInt.toNat)
  else none

/-- What is sent on of the part. -/
def output (s : Hsc) (d : Direction) : Option (List Byte) := (p.key s d).map p.crypt

end Packet

/-! ### What the accesses do to the keys -/

namespace Hsc

variable {s : Hsc} {d : Direction}

theorem wdataReg_ne_ctrlReg (d' : Direction) (i : Fin 8) : d'.wdataReg i ≠ d.ctrlReg := by
  cases d' <;> cases d <;> simp only [Direction.wdataReg, Direction.ctrlReg] <;> omega

theorem wdata_ctrl (v : BitVec 32) : { s with regs := Function.update s.regs d.ctrlReg v }.wdata d = s.wdata d :=
  funext fun i => Function.update_of_ne (wdataReg_ne_ctrlReg d i) _ _

theorem keys_regIndirectAccess_of_write {n : ℕ} {key : Key} (h : s.keyWrite? d = some (n, key)) :
    (s.regIndirectAccess d).keys = Function.update s.keys d (Blocks.write (s.keys d) n key) := by
  unfold keyWrite? at h
  split at h
  · rename_i hc
    obtain ⟨rfl, rfl⟩ := Prod.mk.inj (Option.some.inj h)
    obtain ⟨hena, hgrp, hwr⟩ := hc
    simp only [regIndirectAccess, hena, hgrp, hwr, Bool.true_eq_false, if_false, if_true, wdata_ctrl]
  · cases h

theorem keys_regIndirectAccess_of_none (h : s.keyWrite? d = none) : (s.regIndirectAccess d).keys = s.keys := by
  unfold keyWrite? at h
  unfold regIndirectAccess
  split at h
  · cases h
  · rename_i hc
    by_cases hena : (s.ctrl d).ena = false
    · rw [if_pos hena]
    · rw [if_neg hena]
      by_cases hgrp : (s.ctrl d).grp = 0
      · have hwr : (s.ctrl d).wr ≠ true := fun hwr => hc ⟨by simpa using hena, hgrp, hwr⟩
        rw [if_pos hgrp, if_neg hwr]
        rfl
      · rw [if_neg hgrp]

theorem rdata_regIndirectAccess {n : ℕ} (h : s.keyRead? d = some n) :
    (s.regIndirectAccess d).regs (d.rdataReg 0) = crc32 0 (s.keyAt d n).bytes := by
  unfold keyRead? at h
  split at h
  · rename_i hc
    obtain rfl := Option.some.inj h
    obtain ⟨hena, hgrp, hwr⟩ := hc
    simp only [regIndirectAccess, hena, hgrp, hwr, Bool.true_eq_false, Bool.false_eq_true, if_false, if_true]
    exact if_pos rfl
  · cases h

/-- The registers after a write, before what it triggers. -/
def written (s : Hsc) (tr : UserTrans) : Hsc := { s with regs := Function.update s.regs tr.reg (wordOf tr.data) }

/-- The key that an access writes, with its direction and its index. -/
def writes (s : Hsc) (tr : UserTrans) : Option (Direction × ℕ × Key) := tr.triggers.bind fun d => ((s.written tr).keyWrite? d).map (d, ·)

/-- The index of which an access reads the digest, with its direction. -/
def reads (s : Hsc) (tr : UserTrans) : Option (Direction × ℕ) := tr.triggers.bind fun d => ((s.written tr).keyRead? d).map (d, ·)

end Hsc

theorem UserTrans.reg_of_triggers {tr : UserTrans} {d : Direction} (h : tr.triggers = some d) :
    tr.refused = false ∧ tr.command = .write ∧ tr.reg = d.ctrlReg := by
  unfold triggers at h
  split at h
  · rename_i hc
    split at h
    · rename_i hreg
      cases h
      exact ⟨hc.1, hc.2, hreg⟩
    · split at h
      · rename_i hreg
        cases h
        exact ⟨hc.1, hc.2, hreg⟩
      · cases h
  · cases h

namespace Hsc

variable {s s' : Hsc} {tr tr' : UserTrans} {d : Direction}

theorem userIf_of_triggers (h : tr.triggers = some d) : s.userIf tr = some ((s.written tr).regIndirectAccess d, { tr with response := .ok }) := by
  obtain ⟨href, hcmd, hreg⟩ := UserTrans.reg_of_triggers h
  have hmax : tr.reg ≠ maxRegs := by
    rw [hreg]
    cases d <;> decide
  have hro : tr.readOnly = false := by
    unfold UserTrans.readOnly
    rw [hreg]
    cases d <;> decide
  unfold userIf
  rw [if_neg (by simp [href]), if_neg hmax]
  simp only [hcmd, hro, h, Bool.false_eq_true, if_false]
  rfl

theorem keys_userIf_of_none (h : tr.triggers = none) (hs : s.userIf tr = some (s', tr')) : s'.keys = s.keys := by
  unfold userIf at hs
  split at hs
  · cases hs
    rfl
  · split at hs
    · cases hs
    · cases hcmd : tr.command with
      | read =>
        simp only [hcmd] at hs
        cases hs
        rfl
      | write =>
        simp only [hcmd, h] at hs
        cases hs
        split <;> rfl
      | ignore =>
        simp only [hcmd] at hs
        cases hs
        rfl

theorem keys_userIf (hs : s.userIf tr = some (s', tr')) :
    s'.keys = match s.writes tr with
      | some (d, n, key) => Function.update s.keys d (Blocks.write (s.keys d) n key)
      | none => s.keys := by
  unfold writes
  cases ht : tr.triggers with
  | none => exact keys_userIf_of_none ht hs
  | some d =>
    rw [userIf_of_triggers ht] at hs
    cases hs
    rw [Option.bind_some]
    cases hw : (s.written tr).keyWrite? d with
    | none => exact keys_regIndirectAccess_of_none hw
    | some e => exact keys_regIndirectAccess_of_write hw

theorem keys_userIf_of_writes (hs : s.userIf tr = some (s', tr')) {n : ℕ} {key : Key} (hw : s.writes tr = some (d, n, key)) :
    s'.keys = Function.update s.keys d (Blocks.write (s.keys d) n key) := by rw [keys_userIf hs, hw]

theorem rdata_userIf (hs : s.userIf tr = some (s', tr')) {n : ℕ} (h : s.reads tr = some (d, n)) :
    s'.regs (d.rdataReg 0) = crc32 0 (s.keyAt d n).bytes := by
  obtain ⟨d', ht, h⟩ := Option.bind_eq_some_iff.1 h
  obtain ⟨n', hr, h⟩ := Option.map_eq_some_iff.1 h
  cases h
  rw [userIf_of_triggers ht] at hs
  cases hs
  exact rdata_regIndirectAccess hr

end Hsc

/-! ### The run -/

/-- The engine, and the keys that were written last. -/
structure State where
  hsc : Hsc
  last : Direction → ℕ → Option Key := fun _ _ => none

/-- What happens to the engine. -/
inductive Action where
  /-- `reset_thread`, which writes zeros to all keys. -/
  | reset
  | user (tr : UserTrans)
  | packet (d : Direction) (p : Packet)

namespace State

variable (s : State)

/-- What was written last, with one more key. -/
def record : Option (Direction × ℕ × Key) → Direction → ℕ → Option Key
  | some (d, n, key) => Function.update s.last d (Function.update (s.last d) n (some key))
  | none => s.last

def step (s : State) : Action → Option State
  | .reset => some { hsc := { s.hsc with keys := fun _ _ => 0 }, last := fun _ _ => some fun _ => 0 }
  | .user tr => (s.hsc.userIf tr).map fun r => { hsc := r.1, last := s.record (s.hsc.writes tr) }
  | .packet d p => (p.output s.hsc d).map fun _ => s

/-! ### What there is to be -/

/-- What an access that writes a key is to do, and nothing else. -/
structure Stores (s s' : Hsc) (d : Direction) (n : ℕ) (key : Key) : Prop where
  self : s'.keyAt d n = key
  others : ∀ m < maxKeys, m ≠ n → s'.keyAt d m = s.keyAt d m
  direction : ∀ d', d' ≠ d → s'.keys d' = s.keys d'
  outside : ∀ i, 8 * maxKeys ≤ i → s'.keys d i = s.keys d i

/-- What an access is to do. A digest is to be of the key that was written last to its index. -/
structure LawfulUser (s : State) (tr : UserTrans) (s' : Hsc) : Prop where
  write : ∀ e ∈ s.hsc.writes tr, Stores s.hsc s' e.1 e.2.1 e.2.2
  others : s.hsc.writes tr = none → s'.keys = s.hsc.keys
  read : ∀ e ∈ s.hsc.reads tr, ∀ key ∈ s.last e.1 e.2, s'.regs (e.1.rdataReg 0) = crc32 0 key.bytes

/-- What an action is to do. A packet is to use the key that was written last to its index. -/
def Lawful (s : State) : Action → Prop
  | .reset => True
  | .user tr => ∀ r, s.hsc.userIf tr = some r → s.LawfulUser tr r.1
  | .packet d p => 0 ≤ p.saIndex.toInt → p.saIndex.toInt < maxKeys → ∀ key ∈ s.last d p.saIndex.toInt.toNat, p.key s.hsc d = some key

/-- What is asked of an action: a key that is written has in each word, but the first of the first key and the last of the last one, what
is there. -/
def Harmless (s : State) : Action → Prop
  | .user tr => ∀ e ∈ s.hsc.writes tr, ∀ i : Fin 8, e.2.1 + i ≠ 0 → e.2.1 + i ≠ maxKeys + 6 → e.2.2 i = s.hsc.keys e.1 (e.2.1 + i)
  | _ => True

/-- The keys that were written last are there. -/
def Good (s : State) : Prop := ∀ d, ∀ n < maxKeys, ∀ key ∈ s.last d n, s.hsc.keyAt d n = key

end State

/-- Each word but two of a key is in another one, too. -/
theorem others_iff {mem : ℕ → BitVec 32} {n : ℕ} {key : Key} (hn : n < maxKeys) :
    (∀ m < maxKeys, m ≠ n → Blocks.read (Blocks.write mem n key) m 8 = Blocks.read mem m 8) ↔
      ∀ i : Fin 8, n + i ≠ 0 → n + i ≠ maxKeys + 6 → key i = mem (n + i) := by
  simp only [Blocks.read_write_eq_iff]
  unfold maxKeys at *
  constructor
  · intro h i hfirst hlast
    by_cases hprev : 0 < n ∧ (i : ℕ) < 7
    · exact h (n - 1) (by omega) (by omega) i (by omega) (by omega)
    · exact h (n + 1) (by omega) (by omega) i (by omega) (by omega)
  · intro h m hm hne i hle hlt
    exact h i (by omega) (by omega)

namespace State

variable {s s' : State}

theorem index_lt {tr : UserTrans} {d : Direction} {n : ℕ} {key : Key} (h : s.hsc.writes tr = some (d, n, key)) : n < maxKeys := by
  obtain ⟨d', -, h⟩ := Option.bind_eq_some_iff.1 h
  obtain ⟨e, hw, h⟩ := Option.map_eq_some_iff.1 h
  cases h
  unfold Hsc.keyWrite? at hw
  split at hw
  · cases hw
    exact IndAccess.num_lt _
  · cases hw

theorem read_index_lt {tr : UserTrans} {d : Direction} {n : ℕ} (h : s.hsc.reads tr = some (d, n)) : n < maxKeys := by
  obtain ⟨d', -, h⟩ := Option.bind_eq_some_iff.1 h
  obtain ⟨e, hr, h⟩ := Option.map_eq_some_iff.1 h
  cases h
  unfold Hsc.keyRead? at hr
  split at hr
  · cases hr
    exact IndAccess.num_lt _
  · cases hr

/-- A key is stored as it is to be exactly if it has nothing new in the words of others. -/
theorem stores_iff {h h' : Hsc} {d : Direction} {n : ℕ} {key : Key} (hn : n < maxKeys)
    (hkeys : h'.keys = Function.update h.keys d (Blocks.write (h.keys d) n key)) :
    Stores h h' d n key ↔ ∀ i : Fin 8, n + i ≠ 0 → n + i ≠ maxKeys + 6 → key i = h.keys d (n + i) := by
  have hd : h'.keys d = Blocks.write (h.keys d) n key := by rw [hkeys, Function.update_self]
  rw [← others_iff hn]
  constructor
  · intro hst m hm hne
    have := hst.others m hm hne
    rwa [Hsc.keyAt, hd] at this
  · intro hothers
    refine ⟨?_, fun m hm hne => ?_, fun d' hne => ?_, fun i hi => ?_⟩
    · rw [Hsc.keyAt, hd, Blocks.read_write_self]
    · rw [Hsc.keyAt, hd]
      exact hothers m hm hne
    · rw [hkeys, Function.update_of_ne hne]
    · rw [hd]
      unfold maxKeys at *
      exact Blocks.write_of_outside _ _ _ (by omega)

/-- The key of a packet with an index of an internal key. -/
theorem key_eq {p : Packet} {d : Direction} (h0 : 0 ≤ p.saIndex.toInt) (h1 : p.saIndex.toInt < maxKeys) :
    p.key s.hsc d = some (s.hsc.keyAt d p.saIndex.toInt.toNat) := by
  unfold Packet.key
  rw [if_neg (not_le.2 h1), if_pos h0]

theorem writes_of_userIf_eq_none {tr : UserTrans} (h : s.hsc.userIf tr = none) : s.hsc.writes tr = none := by
  unfold Hsc.writes
  cases ht : tr.triggers with
  | none => rfl
  | some d => rw [Hsc.userIf_of_triggers ht] at h; cases h

theorem lawfulUser_iff (h : s.Good) {tr tr' : UserTrans} {hsc' : Hsc} (hr : s.hsc.userIf tr = some (hsc', tr')) :
    s.LawfulUser tr hsc' ↔ s.Harmless (.user tr) := by
  have hkeys := Hsc.keys_userIf hr
  constructor
  · intro hl e he
    exact (stores_iff (index_lt he) (by rw [hkeys, he])).1 (hl.write e he)
  · intro hh
    refine ⟨fun e he => ?_, fun hnone => ?_, fun e he key hkey => ?_⟩
    · exact (stores_iff (index_lt he) (by rw [hkeys, he])).2 (hh e he)
    · rw [hkeys, hnone]
    · rw [Hsc.rdata_userIf hr he, h e.1 e.2 (read_index_lt he) key hkey]

/-- As long as the keys are there, an action does what it is to do exactly if no key with something new is written over others. -/
theorem lawful_iff (h : s.Good) (a : Action) : s.Lawful a ↔ s.Harmless a := by
  cases a with
  | reset => exact Iff.rfl
  | packet d p =>
    refine iff_of_true (fun h0 h1 key hkey => ?_) trivial
    rw [key_eq h0 h1, h d _ (by omega) key hkey]
  | user tr =>
    cases hr : s.hsc.userIf tr with
    | some r =>
      refine Iff.trans ?_ (lawfulUser_iff h hr)
      simp only [Lawful, hr, Option.some.injEq, forall_eq']
    | none =>
      refine iff_of_true (fun r hr' => ?_) fun e he => ?_
      · rw [hr] at hr'
        cases hr'
      · rw [writes_of_userIf_eq_none hr] at he
        cases he

/-! ### Runs -/

theorem record_some_self (d : Direction) (n : ℕ) (key : Key) : s.record (some (d, n, key)) d n = some key := by
  simp only [record, Function.update_self]

theorem record_some_of_ne {d d' : Direction} {n m : ℕ} (key : Key) (h : d' = d → m ≠ n) : s.record (some (d, n, key)) d' m = s.last d' m := by
  by_cases hd : d' = d
  · subst hd
    simp only [record, Function.update_self, Function.update_of_ne (h rfl)]
  · simp only [record, Function.update_of_ne hd]

theorem step_user {tr : UserTrans} (h : s.step (.user tr) = some s') :
    (∃ tr', s.hsc.userIf tr = some (s'.hsc, tr')) ∧ s'.last = s.record (s.hsc.writes tr) := by
  obtain ⟨⟨hsc', tr'⟩, hr, rfl⟩ := Option.map_eq_some_iff.1 h
  exact ⟨⟨tr', hr⟩, rfl⟩

theorem step_packet {d : Direction} {p : Packet} (h : s.step (.packet d p) = some s') : s' = s := by
  obtain ⟨_, -, rfl⟩ := Option.map_eq_some_iff.1 h
  rfl

/-- What was written last to an index is there behind an access, if the access writes no words of it for another index. -/
theorem keyAt_user {tr : UserTrans} {d : Direction} {n : ℕ} (hs : s.step (.user tr) = some s') (h : ∀ key ∈ s.last d n, s.hsc.keyAt d n = key)
    (hother : ∀ n₀ key₀, s.hsc.writes tr = some (d, n₀, key₀) → n ≠ n₀ → s'.hsc.keyAt d n = s.hsc.keyAt d n) :
    ∀ key ∈ s'.last d n, s'.hsc.keyAt d n = key := by
  obtain ⟨⟨tr', hr⟩, hlast⟩ := step_user hs
  intro key hkey
  rw [hlast] at hkey
  cases hw : s.hsc.writes tr with
  | none =>
    rw [hw] at hkey
    rw [Hsc.keyAt, Hsc.keys_userIf hr, hw]
    exact h key hkey
  | some e =>
    obtain ⟨d₀, n₀, key₀⟩ := e
    have hkeys := Hsc.keys_userIf_of_writes hr hw
    rw [hw] at hkey
    by_cases hd : d = d₀
    · subst hd
      by_cases hne : n = n₀
      · subst hne
        rw [record_some_self] at hkey
        cases hkey
        rw [Hsc.keyAt, hkeys, Function.update_self, Blocks.read_write_self]
      · rw [record_some_of_ne key₀ fun _ => hne] at hkey
        rw [hother n₀ key₀ hw hne]
        exact h key hkey
    · rw [record_some_of_ne key₀ fun hd' => absurd hd' hd] at hkey
      rw [Hsc.keyAt, hkeys, Function.update_of_ne hd]
      exact h key hkey

theorem Good.step (h : s.Good) {a : Action} (hl : s.Lawful a) (hs : s.step a = some s') : s'.Good := by
  cases a with
  | reset =>
    cases hs
    intro d n _ key hkey
    cases hkey
    rfl
  | packet d p => exact step_packet hs ▸ h
  | user tr =>
    obtain ⟨⟨tr', hr⟩, -⟩ := step_user hs
    exact fun d n hn => keyAt_user hs (h d n hn) fun n₀ key₀ hw hne => ((hl _ hr).write _ hw).others n hn hne

/-- **The keys of a run are kept apart exactly if no key with something new is written over others.** -/
theorem runOk_stores_iff (hsc : Hsc) (as : List Action) : RunOk step Lawful { hsc := hsc } as ↔ RunOk step Harmless { hsc := hsc } as :=
  runOk_congr_of_ok (fun h hl hs => Good.step h hl hs) (fun h => lawful_iff h _) (fun _ _ _ _ hkey => nomatch hkey)

/-- The indices of the keys that an action writes are among those of a set. -/
def WritesIn (used : Direction → Set ℕ) (s : State) : Action → Prop
  | .user tr => ∀ e ∈ s.hsc.writes tr, e.2.1 ∈ used e.1
  | _ => True

/-- An action keeps the keys of indices eight apart. -/
theorem keyAt_step_of_spaced {used : Direction → Set ℕ} (hsp : ∀ d, ∀ n ∈ used d, ∀ m ∈ used d, n < m → n + 8 ≤ m) {a : Action}
    (h : ∀ d, ∀ n ∈ used d, ∀ key ∈ s.last d n, s.hsc.keyAt d n = key) (hok : WritesIn used s a) (hs : s.step a = some s') :
    ∀ d, ∀ n ∈ used d, ∀ key ∈ s'.last d n, s'.hsc.keyAt d n = key := by
  cases a with
  | reset =>
    cases hs
    intro d n _ key hkey
    cases hkey
    rfl
  | packet d p => exact step_packet hs ▸ h
  | user tr =>
    obtain ⟨⟨tr', hr⟩, -⟩ := step_user hs
    refine fun d n hn => keyAt_user hs (h d n hn) fun n₀ key₀ hw hne => ?_
    have hn₀ : n₀ ∈ used d := hok _ hw
    have hapart : n₀ + 8 ≤ n ∨ n + 8 ≤ n₀ := by
      rcases Nat.lt_or_gt_of_ne hne with hlt | hlt
      · exact .inr (hsp d n hn n₀ hn₀ hlt)
      · exact .inl (hsp d n₀ hn₀ n hn hlt)
    rw [Hsc.keyAt, Hsc.keys_userIf_of_writes hr hw, Function.update_self, Blocks.read_write_of_apart hapart]
    rfl

/-- The key of index 1 is written after the reset, and the one of index 0 has its words. -/
theorem not_runOk_stores :
    ¬RunOk step Lawful { hsc := { regs := fun _ => 1, keys := fun _ _ => 0 } }
      [.reset, .user { command := .write, address := 0x4000, data := leBytes 4 0x103 }] := by
  rintro ⟨-, hrest⟩
  obtain ⟨hl, -⟩ := hrest _ rfl
  have hgood : Good { hsc := { regs := fun _ => 1, keys := fun _ _ => 0 }, last := fun _ _ => some fun _ => 0 } := fun _ _ _ key hkey => by
    cases hkey
    rfl
  have hh := (lawful_iff hgood _).1 hl (.tx, 1, fun _ => 1) (by decide) 0 (by decide) (by decide)
  exact absurd hh (by decide)

end State

end LibSystemCTLM.Crypto
