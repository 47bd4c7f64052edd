import LibSystemCTLM.Foundation.Runs
import Mathlib.Algebra.Order.Ring.Nat

/-!
# Random traffic

`RandomTraffic` draws a transaction at a time, and reads back what it has written with the transaction after a write.
An address is drawn between the bounds and then masked, a length is cut at the upper bound, and a streaming width is
drawn below the length and then moved between its own limits. `genAddrLen_right_iff` and `reread_right_iff` say when
such a transaction is what it should be: masking may go below the lower bound, a remainder of zero or by zero is drawn
for a length of zero, and only a write that neither streams nor leaves bytes out is read back as it was written.
-/

namespace LibSystemCTLM.Traffic

open Foundation

/-- What a `RandomTraffic` is set up with. -/
structure TrafficConfig where
  minAddress : ℕ
  maxAddress : ℕ
  addressMask : ℕ
  minDataLen : ℕ
  maxDataLen : ℕ
  minStreamingWidthLen : ℕ
  maxStreamingWidthLen : ℕ
  maxByteEnablesLen : ℕ
  lt : minAddress < maxAddress
  maxAddress_lt : maxAddress < 2 ^ 64
  maxDataLen_lt : maxDataLen < 2 ^ 32

/-- The values of `rand_r` in the calls for one transaction; those for the byte enables are a sequence. -/
structure Draws where
  cmd : ℕ := 0
  address : ℕ := 0
  len : ℕ := 0
  hasBe : ℕ := 0
  be : ℕ := 0
  hasSw : ℕ := 0
  sw : ℕ := 0
  enables : ℕ → ℕ := fun _ => 0

/-- What `genAddrLen` generates, and whether that is for the initialisation of the memory. -/
structure AddrLen where
  address : ℕ
  len : ℕ
  beLen : ℕ
  swLen : ℕ
  init : Bool

/-- A transaction. -/
structure Transfer where
  write : Bool
  address : ℕ
  len : ℕ
  byteEnables : List Bool
  streamingWidth : ℕ
  init : Bool

/-- `rand_r(&m_seed) % n`; `none` is a division by zero. -/
def randMod (r n : ℕ) : Option ℕ := if n = 0 then none else some (r % n)

namespace TrafficConfig

variable (c : TrafficConfig) (d : Draws)

/-- The address, between the bounds and then masked. -/
def address : ℕ := (c.minAddress + d.address % (c.maxAddress - c.minAddress)) &&& c.addressMask

/-- The cap on the length. -/
def maxLen : ℕ := min c.maxDataLen (c.maxAddress - c.address d)

/-- The length out of a draw below `maxLen + 1`. -/
def clampLen (len : ℕ) : ℕ := if c.minDataLen < len then len else min c.minDataLen (c.maxLen d)

/-- The streaming width between its limits, which zero is not. -/
def clampSw (len sw : ℕ) : ℕ :=
  let sw := if sw < c.minStreamingWidthLen then c.minStreamingWidthLen else sw
  let sw := if c.maxStreamingWidthLen < sw then c.maxStreamingWidthLen else sw
  if sw = 0 then len else sw

/-- The length of a transaction, where the cap leaves a remainder. -/
def len : ℕ := c.clampLen d (d.len % (c.maxLen d + 1))

/-- The streaming width before its limits. -/
def sw : ℕ := if d.hasSw % 2 = 1 then d.sw % c.len d else c.len d

/-- The number of byte enables. -/
def beLen : ℕ := if c.maxByteEnablesLen ≠ 0 ∧ d.hasBe % 2 = 1 then d.be % (min c.maxByteEnablesLen (c.len d) + 1) else 0

/-- `genAddrLen`. The sums of the remainders have 32 bits. -/
def genAddrLen (initMemory : Bool) : Option AddrLen :=
  if initMemory = true then
    let len := (c.maxAddress - c.minAddress) % 2 ^ 32
    some ⟨c.minAddress, len, 0, len, true⟩
  else
    (randMod d.len ((c.maxLen d + 1) % 2 ^ 32)).bind fun len =>
      let len := c.clampLen d len
      (if c.maxByteEnablesLen ≠ 0 ∧ d.hasBe % 2 = 1 then randMod d.be ((min c.maxByteEnablesLen len + 1) % 2 ^ 32) else some 0).bind fun beLen =>
        (if d.hasSw % 2 = 1 then randMod d.sw len else some len).map fun sw =>
          ⟨c.address d, len, beLen, c.clampSw len sw, false⟩

end TrafficConfig

/-- `getByteEnable`: the bits of the draws, a new one where there are no bits left. -/
def getByteEnable (rand : ℕ → ℕ) : ℕ → ℕ → ℕ → List Bool
  | 0, _, _ => []
  | n + 1, used, v =>
    let (v, used) := if v = 0 then (rand used, used + 1) else (v, used)
    decide (v % 2 = 1) :: getByteEnable rand n used (v / 2)

namespace Transfer

variable (t : Transfer)

/-- Byte `k` is enabled. -/
def Enabled (k : ℕ) : Prop := t.byteEnables = [] ∨ t.byteEnables[k % t.byteEnables.length]? = some true

/-- An address the transaction accesses. -/
def Touches (a : ℕ) : Prop := ∃ k < t.len, t.Enabled k ∧ a = t.address + k % t.streamingWidth

/-- Within the bounds of the configuration; the memory is initialised as a whole. -/
def Bounded (c : TrafficConfig) : Prop :=
  c.minAddress ≤ t.address ∧
  t.address + min t.len t.streamingWidth ≤ t.address + t.len ∧ t.address + t.len ≤ c.maxAddress ∧
  t.len ≤ (if t.init = true then c.maxAddress - c.minAddress else c.maxDataLen) ∧
  t.byteEnables.length ≤ c.maxDataLen ∧ t.byteEnables.length ≤ t.len ∧
  1 ≤ t.streamingWidth ∧ t.streamingWidth ≤ (if t.init = true then c.maxAddress - c.minAddress else c.maxStreamingWidthLen)

end Transfer

/-- The generator, and the last transaction it has generated. -/
structure RandomTraffic where
  numTransfers : ℕ
  lastWrite : Bool := false
  initMemory : Bool
  addrLen : Option AddrLen := none
  last : Option Transfer := none

namespace RandomTraffic

variable (c : TrafficConfig) (s : RandomTraffic) (d : Draws)

/-- `getCmd`: a write? -/
def getCmd : Bool := if s.lastWrite = true then false else s.initMemory || decide (d.cmd % 2 = 1)

/-- The transaction, and the generator after `next`. `m_last_write` is then what `getCmd` has returned. -/
def turn (g : AddrLen) : RandomTraffic × Transfer :=
  let write := s.getCmd d
  let t : Transfer := ⟨write, g.address, g.len, getByteEnable d.enables g.beLen 0 0, g.swLen, g.init⟩
  ({ numTransfers := s.numTransfers - 1
     lastWrite := write
     initMemory := false
     addrLen := if write = true then some { g with beLen := 0, swLen := g.len } else none
     last := some t }, t)

/-- One turn of the traffic generator, from `getCmd` to `next`. -/
def transfer : Option (RandomTraffic × Transfer) :=
  match s.addrLen with
  | some g => some (s.turn d g)
  | none => (c.genAddrLen d s.initMemory).map (s.turn d)

/-- A turn that is taken while there are transfers left. -/
def step : Option RandomTraffic := if s.numTransfers = 0 then none else (s.transfer c d).map Prod.fst

/-- The transaction comes about, stays within the bounds, and reads back what was written before it. -/
def Right : Prop :=
  s.numTransfers ≠ 0 → ∃ s' t, s.transfer c d = some (s', t) ∧ t.Bounded c ∧
    (s.lastWrite = true → t.write = false ∧ ∀ w ∈ s.last, ∀ a, t.Touches a ↔ w.Touches a)

/-- A read back: of a write that accesses each of its bytes, as long as a streaming width may be. A region that is
initialised has a size that 32 bits do not make zero. Any other transaction has an address above the lower bound, and
neither a cap of 2^32 - 1 nor a length of zero to divide by; a streaming width that the limits leave at zero is the
length, which then has to be one. -/
def Clear : Prop :=
  s.numTransfers ≠ 0 →
    if s.lastWrite = true then
      ∃ w ∈ s.last, 1 ≤ w.len ∧ w.len ≤ w.streamingWidth ∧ (w.init = true ∨ w.len ≤ c.maxStreamingWidthLen) ∧ ∀ k < w.len, w.Enabled k
    else if s.initMemory = true then (c.maxAddress - c.minAddress) % 2 ^ 32 ≠ 0
    else
      c.minAddress ≤ c.address d ∧ c.maxLen d + 1 ≠ 2 ^ 32 ∧ (d.hasSw % 2 = 1 → c.len d ≠ 0) ∧
        c.maxStreamingWidthLen ≠ 0 ∧ (c.sw d = 0 → c.minStreamingWidthLen = 0 → 1 ≤ c.len d ∧ c.len d ≤ c.maxStreamingWidthLen)

variable {c s d} {g : AddrLen} {w : Transfer}

theorem length_getByteEnable (rand : ℕ → ℕ) (n used v : ℕ) : (getByteEnable rand n used v).length = n := by
  induction n generalizing used v with
  | zero => rfl
  | succ n ih => exact congrArg (· + 1) (ih _ _)

theorem bounded_turn_iff : (s.turn d g).2.Bounded c ↔
    c.minAddress ≤ g.address ∧ g.address + g.len ≤ c.maxAddress ∧
      g.len ≤ (if g.init = true then c.maxAddress - c.minAddress else c.maxDataLen) ∧ g.beLen ≤ c.maxDataLen ∧ g.beLen ≤ g.len ∧
      1 ≤ g.swLen ∧ g.swLen ≤ (if g.init = true then c.maxAddress - c.minAddress else c.maxStreamingWidthLen) := by
  have hmin : g.address + min g.len g.swLen ≤ g.address + g.len := Nat.add_le_add_left (Nat.min_le_left _ _) _
  simp only [turn, Transfer.Bounded, length_getByteEnable, hmin, true_and]
  exact Iff.rfl

/-! ### A new transaction -/

theorem clampSw_iff (c : TrafficConfig) (len sw : ℕ) :
    (1 ≤ c.clampSw len sw ∧ c.clampSw len sw ≤ c.maxStreamingWidthLen) ↔
      c.maxStreamingWidthLen ≠ 0 ∧ (sw = 0 → c.minStreamingWidthLen = 0 → 1 ≤ len ∧ len ≤ c.maxStreamingWidthLen) := by
  simp only [TrafficConfig.clampSw]
  split_ifs <;> omega

theorem clampLen_le {len : ℕ} (h : len ≤ c.maxLen d) : c.clampLen d len ≤ c.maxLen d := by
  unfold TrafficConfig.clampLen
  split
  · exact h
  · exact Nat.min_le_right _ _

theorem address_lt : c.address d < c.maxAddress := by
  have hlt := c.lt
  have hmod := Nat.mod_lt d.address (Nat.sub_pos_of_lt hlt)
  have hand : c.address d ≤ c.minAddress + d.address % (c.maxAddress - c.minAddress) := Nat.and_le_left
  omega

theorem randMod_of_pos {r n : ℕ} (h : n ≠ 0) : randMod r n = some (r % n) := if_neg h

/-- `genAddrLen` outside of the initialisation: it divides by zero, or gives a length within the cap. -/
theorem genAddrLen_eq_some_iff : c.genAddrLen d false = some g ↔
    c.maxLen d + 1 ≠ 2 ^ 32 ∧ (d.hasSw % 2 = 1 → c.len d ≠ 0) ∧
      (⟨c.address d, c.len d, c.beLen d, c.clampSw (c.len d) (c.sw d), false⟩ : AddrLen) = g := by
  have hcap : c.maxLen d < 2 ^ 32 := Nat.lt_of_le_of_lt (Nat.min_le_left _ _) c.maxDataLen_lt
  rw [TrafficConfig.genAddrLen, if_neg Bool.false_ne_true]
  by_cases hmax : c.maxLen d + 1 = 2 ^ 32
  · rw [hmax, Nat.mod_self, randMod, if_pos rfl, Option.bind_none]
    exact iff_of_false (Option.some_ne_none g).symm fun h => h.1 rfl
  · rw [Nat.mod_eq_of_lt (by omega), randMod_of_pos (Nat.succ_ne_zero _), Option.bind_some]
    have hlen : c.len d ≤ c.maxLen d := clampLen_le (Nat.lt_succ_iff.1 (Nat.mod_lt _ (Nat.succ_pos _)))
    have hbe : (if c.maxByteEnablesLen ≠ 0 ∧ d.hasBe % 2 = 1 then randMod d.be ((min c.maxByteEnablesLen (c.len d) + 1) % 2 ^ 32) else some 0) =
        some (c.beLen d) := by
      have hmin := Nat.min_le_right c.maxByteEnablesLen (c.len d)
      unfold TrafficConfig.beLen
      split
      · rw [Nat.mod_eq_of_lt (by omega), randMod_of_pos (Nat.succ_ne_zero _)]
      · rfl
    change ((if c.maxByteEnablesLen ≠ 0 ∧ d.hasBe % 2 = 1 then randMod d.be ((min c.maxByteEnablesLen (c.len d) + 1) % 2 ^ 32) else some 0).bind
      fun beLen => (if d.hasSw % 2 = 1 then randMod d.sw (c.len d) else some (c.len d)).map fun sw =>
        (⟨c.address d, c.len d, beLen, c.clampSw (c.len d) sw, false⟩ : AddrLen)) = some g ↔ _
    rw [hbe, Option.bind_some, TrafficConfig.sw]
    by_cases hsw : d.hasSw % 2 = 1
    · by_cases h0 : c.len d = 0
      · rw [if_pos hsw, h0, randMod, if_pos rfl, Option.map_none]
        exact iff_of_false (Option.some_ne_none g).symm fun h => h.2.1 hsw rfl
      · rw [if_pos hsw, if_pos hsw, randMod_of_pos h0, Option.map_some, Option.some.injEq]
        exact ⟨fun h => ⟨hmax, fun _ => h0, h⟩, fun h => h.2.2⟩
    · rw [if_neg hsw, if_neg hsw, Option.map_some, Option.some.injEq]
      exact ⟨fun h => ⟨hmax, fun h => absurd h hsw, h⟩, fun h => h.2.2⟩

theorem beLen_le : c.beLen d ≤ c.len d := by
  unfold TrafficConfig.beLen
  split
  · exact Nat.le_trans (Nat.lt_succ_iff.1 (Nat.mod_lt _ (Nat.succ_pos _))) (Nat.min_le_right _ _)
  · exact Nat.zero_le _

theorem genAddrLen_right_iff (hlast : s.lastWrite = false) (hinit : s.initMemory = false) (hnone : s.addrLen = none) :
    s.Right c d ↔ s.Clear c d := by
  unfold Right Clear
  refine imp_congr_right fun _ => ?_
  rw [hlast, hinit, if_neg Bool.false_ne_true, if_neg Bool.false_ne_true, transfer, hnone, hinit]
  have hsw := clampSw_iff c (c.len d) (c.sw d)
  constructor
  · rintro ⟨s', t, ht, hbounded, -⟩
    obtain ⟨g, hg, hturn⟩ := Option.map_eq_some_iff.1 ht
    obtain ⟨hmax, hlen, rfl⟩ := genAddrLen_eq_some_iff.1 hg
    obtain rfl := congrArg Prod.snd hturn
    obtain ⟨hlo, -, -, -, -, h1, h2⟩ := bounded_turn_iff.1 hbounded
    exact ⟨hlo, hmax, hlen, hsw.1 ⟨h1, h2⟩⟩
  · rintro ⟨hlo, hmax, hlen, h⟩
    have hcap : c.len d ≤ c.maxLen d := clampLen_le (Nat.lt_succ_iff.1 (Nat.mod_lt _ (Nat.succ_pos _)))
    have hdata : c.maxLen d ≤ c.maxDataLen := Nat.min_le_left _ _
    have haddr : c.maxLen d ≤ c.maxAddress - c.address d := Nat.min_le_right _ _
    have hlt := address_lt (c := c) (d := d)
    have hbe := beLen_le (c := c) (d := d)
    have hg := genAddrLen_eq_some_iff.2 ⟨hmax, hlen, rfl⟩
    refine ⟨_, _, Option.map_eq_some_iff.2 ⟨_, hg, rfl⟩, bounded_turn_iff.2 ⟨hlo, ?_, ?_, ?_, hbe, hsw.2 h⟩, fun h => nomatch h⟩
    · change c.address d + c.len d ≤ c.maxAddress
      omega
    · exact Nat.le_trans hcap hdata
    · exact Nat.le_trans hbe (Nat.le_trans hcap hdata)

/-- The initialisation: the region has a size that 32 bits can hold a part of. -/
theorem init_right_iff (hlast : s.lastWrite = false) (hinit : s.initMemory = true) (hnone : s.addrLen = none) : s.Right c d ↔ s.Clear c d := by
  unfold Right Clear
  refine imp_congr_right fun _ => ?_
  rw [hlast, hinit, if_neg Bool.false_ne_true, if_pos rfl, transfer, hnone, hinit]
  have hmod := Nat.mod_le (c.maxAddress - c.minAddress) (2 ^ 32)
  have hlt := c.lt
  constructor
  · rintro ⟨s', t, ht, hbounded, -⟩ h0
    obtain ⟨g, hg, hturn⟩ := Option.map_eq_some_iff.1 ht
    obtain rfl := Option.some.inj hg
    obtain rfl := congrArg Prod.snd hturn
    obtain ⟨-, -, -, -, -, h1, -⟩ := bounded_turn_iff.1 hbounded
    exact absurd (h0 ▸ h1 : 1 ≤ 0) (by decide)
  · intro h
    refine ⟨_, _, Option.map_eq_some_iff.2 ⟨_, rfl, rfl⟩, bounded_turn_iff.2 ⟨Nat.le_refl _, ?_, hmod, Nat.zero_le _, Nat.zero_le _,
      Nat.pos_of_ne_zero h, hmod⟩, fun h => nomatch h⟩
    change c.minAddress + (c.maxAddress - c.minAddress) % 2 ^ 32 ≤ c.maxAddress
    omega

/-! ### Reading back -/

/-- What holds between two turns: after a write its address and length are kept. -/
structure Inv (c : TrafficConfig) (s : RandomTraffic) : Prop where
  fresh : s.lastWrite = false → s.addrLen = none
  pending : s.lastWrite = true → ∃ w, s.last = some w ∧ s.addrLen = some ⟨w.address, w.len, 0, w.len, w.init⟩ ∧ w.Bounded c

/-- A transaction that touches each byte of a stretch, against one that may stream and leave bytes out. -/
theorem touches_iff (h1 : 1 ≤ w.len) (hpos : 1 ≤ w.streamingWidth) :
    (∀ a, (∃ k < w.len, a = w.address + k) ↔ w.Touches a) ↔ w.len ≤ w.streamingWidth ∧ ∀ k < w.len, w.Enabled k := by
  constructor
  · intro h
    have hk : ∀ i < w.len, ∃ k < w.len, w.Enabled k ∧ i = k % w.streamingWidth := by
      intro i hi
      obtain ⟨k, hk, hen, heq⟩ := (h (w.address + i)).1 ⟨i, hi, rfl⟩
      exact ⟨k, hk, hen, Nat.add_left_cancel heq⟩
    have hsw : w.len ≤ w.streamingWidth := by
      obtain ⟨k, hk, -, heq⟩ := hk (w.len - 1) (by omega)
      have hlt := Nat.mod_lt k hpos
      omega
    refine ⟨hsw, fun i hi => ?_⟩
    obtain ⟨k, hk, hen, heq⟩ := hk i hi
    rw [Nat.mod_eq_of_lt (by omega)] at heq
    exact heq ▸ hen
  · rintro ⟨hsw, hall⟩ a
    constructor
    · rintro ⟨k, hk, rfl⟩
      exact ⟨k, hk, hall k hk, by rw [Nat.mod_eq_of_lt (by omega)]⟩
    · rintro ⟨k, hk, -, rfl⟩
      exact ⟨k, hk, by rw [Nat.mod_eq_of_lt (by omega)]⟩

theorem reread_right_iff (h : Inv c s) (hlast : s.lastWrite = true) : s.Right c d ↔ s.Clear c d := by
  obtain ⟨w, hw, hgen, hbounded⟩ := h.pending hlast
  obtain ⟨hlo, -, hhi, hlen, hbe, -, hsw1, -⟩ := hbounded
  unfold Right Clear
  refine imp_congr_right fun _ => ?_
  rw [hlast, if_pos rfl, transfer, hgen, hw]
  set g : AddrLen := ⟨w.address, w.len, 0, w.len, w.init⟩
  have hread : (s.turn d g).2.write = false := if_pos hlast
  -- the transaction streams over its whole length, without byte enables
  have htouches : ∀ a, (s.turn d g).2.Touches a ↔ ∃ k < w.len, a = w.address + k := by
    intro a
    refine exists_congr fun k => and_congr_right fun hk => ?_
    constructor
    · rintro ⟨-, ha⟩
      exact ha.trans (congrArg (w.address + ·) (Nat.mod_eq_of_lt hk))
    · intro ha
      exact ⟨.inl rfl, ha.trans (congrArg (w.address + ·) (Nat.mod_eq_of_lt hk).symm)⟩
  constructor
  · rintro ⟨s', t, ht, ht', hback⟩
    obtain rfl := congrArg Prod.snd (Option.some.inj ht)
    obtain ⟨-, -, -, -, -, h1, h2⟩ := bounded_turn_iff.1 ht'
    obtain ⟨-, hback⟩ := hback rfl
    obtain ⟨hsw, hall⟩ := (touches_iff h1 hsw1).1 fun a => (htouches a).symm.trans (hback w rfl a)
    refine ⟨w, rfl, h1, hsw, ?_, hall⟩
    cases hi : w.init with
    | true => exact .inl rfl
    | false =>
      right
      rwa [if_neg (by simp [g, hi])] at h2
  · rintro ⟨w', hw', h1, hsw, hlim, hall⟩
    obtain rfl := Option.some.inj hw'
    refine ⟨_, _, rfl, bounded_turn_iff.2 ⟨hlo, hhi, hlen, Nat.zero_le _, Nat.zero_le _, h1, ?_⟩, fun _ => ⟨hread, ?_⟩⟩
    · change w.len ≤ if w.init = true then _ else _
      change w.len ≤ if w.init = true then _ else _ at hlen
      split
      · rename_i hi
        rwa [if_pos hi] at hlen
      · rename_i hi
        exact hlim.resolve_left hi
    · rintro _ ⟨⟩ a
      exact (htouches a).trans ((touches_iff h1 hsw1).2 ⟨hsw, hall⟩ a)

theorem right_iff_clear (h : Inv c s) : s.Right c d ↔ s.Clear c d := by
  cases hlast : s.lastWrite with
  | true => exact reread_right_iff h hlast
  | false =>
    cases hinit : s.initMemory with
    | true => exact init_right_iff hlast hinit (h.fresh hlast)
    | false => exact genAddrLen_right_iff hlast hinit (h.fresh hlast)

/-- A turn that is right leaves the write it has made to be read back. -/
theorem Inv.step {s' : RandomTraffic} (hright : s.Right c d) (hs : s.step c d = some s') : Inv c s' := by
  obtain ⟨hn, hs⟩ := Option.ite_none_left_eq_some.1 hs
  obtain ⟨⟨s'', t⟩, ht, rfl⟩ := Option.map_eq_some_iff.1 hs
  obtain ⟨_, _, ht', hbounded, -⟩ := hright hn
  obtain ⟨rfl, rfl⟩ := Prod.mk.inj (Option.some.inj (ht.symm.trans ht'))
  obtain ⟨g, hg⟩ : ∃ g, s.turn d g = (s'', t) := by
    unfold transfer at ht
    split at ht
    · exact ⟨_, Option.some.inj ht⟩
    · obtain ⟨g, -, hg⟩ := Option.map_eq_some_iff.1 ht
      exact ⟨g, hg⟩
  obtain rfl : (s.turn d g).1 = s'' := congrArg Prod.fst hg
  obtain rfl : (s.turn d g).2 = t := congrArg Prod.snd hg
  refine ⟨fun hw => if_neg (by simp [show s.getCmd d = false from hw]), fun hw => ⟨_, rfl, if_pos hw, hbounded⟩⟩

/-- A generator, with the number of transfers it is to make. -/
def start (numTransfers : ℕ) (initMemory : Bool) : RandomTraffic := { numTransfers, initMemory }

/-- **Random traffic, exactly**: every transaction of a run is what it should be if and only if its draws, and the write
before it, are clear. -/
theorem traffic_runOk_iff (c : TrafficConfig) (numTransfers : ℕ) (initMemory : Bool) (ds : List Draws) :
    RunOk (fun s d => s.step c d) (fun s d => s.Right c d) (start numTransfers initMemory) ds ↔
      RunOk (fun s d => s.step c d) (fun s d => s.Clear c d) (start numTransfers initMemory) ds := by
  have hstart : Inv c (start numTransfers initMemory) := ⟨fun _ => rfl, fun h => nomatch h⟩
  exact runOk_congr_of_ok (fun _ hright hs => Inv.step hright hs) right_iff_clear hstart

/-- A mask that goes below the lower bound. -/
theorem not_traffic_runOk : ¬∀ (c : TrafficConfig) (numTransfers : ℕ) (initMemory : Bool) (ds : List Draws),
    RunOk (fun s d => s.step c d) (fun s d => s.Right c d) (start numTransfers initMemory) ds := by
  intro h
  have hright := (h ⟨4, 8, 0xfffffff8, 1, 4, 0, 4, 0, by decide, by decide, by decide⟩ 1 false [{}]).1
  have hclear := (genAddrLen_right_iff rfl rfl rfl).1 hright Nat.one_ne_zero
  exact absurd hclear.1 (by decide)

end RandomTraffic

end LibSystemCTLM.Traffic
