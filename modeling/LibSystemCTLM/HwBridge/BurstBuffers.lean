import LibSystemCTLM.Foundation.Bursts
import LibSystemCTLM.Tlm.Payload

/-!
# The buffers of `axi2tlm_hw_bridge`

The hardware has the beats of a burst in memory, each as a whole word of the bus, and the bridge makes one TLM payload of
them (`process_desc_free` in `axi2tlm-hw-bridge.h`). Where the beats are narrower than the bus, or all at one address, it
moves their bytes together, in the buffer they are in; and what it has read for such a burst it moves apart, through a
buffer on its stack.

## The model

`data32` and `be32` are functions of the place in them. `memmove` reads before it writes. `Descriptor` is what the
hardware says of a burst, with a size of whole bus words.

## What is proved

A write of a burst that does not wrap writes what AXI makes of its strobed lanes (`write_right`). A read puts the bytes of
its payload, from the first one on, on the active lanes of its beats, as long as the buffer on the stack has room for them
(`read_right_iff`).

## Honest scope

Wrapping bursts go through the wrap expander with their bytes where a burst that does not wrap has them, and are left out.
So are the attributes no byte depends on.
-/

namespace LibSystemCTLM.Axi2TlmHw

open Foundation Tlm

/-- The width of the data bus. -/
structure Config where
  log : ℕ
  log_le : log ≤ 7

/-- `data_bytewidth`. -/
def Config.dataBytewidth (cfg : Config) : ℕ := 2 ^ cfg.log

variable (cfg : Config)

/-- A burst in the register file, with beats no wider than the bus. -/
structure Descriptor where
  axaddr : Addr
  axsize : ℕ
  beats : ℕ
  axburst : BurstType
  axsize_le : axsize ≤ cfg.log
  beats_pos : 0 < beats

variable {cfg}

namespace Descriptor

variable (d : Descriptor cfg)

/-- `number_bytes`. -/
def numberBytes : ℕ := 2 ^ d.axsize

/-- `size`, which the hardware counts in words of the bus. -/
def size : ℕ := d.beats * cfg.dataBytewidth

/-- `axlen`. -/
def axlen : ℕ := (d.size - 1) / cfg.dataBytewidth

/-- `burst_length`. -/
def burstLength : ℕ := d.axlen + 1

/-- `offset`. -/
def offset : ℕ := d.axaddr.toNat - d.axaddr.toNat / cfg.dataBytewidth * cfg.dataBytewidth

/-- `axaddr & (number_bytes - 1)`. -/
def unaligned : ℕ := d.axaddr.toNat &&& (d.numberBytes - 1)

/-- What AXI reads in it. -/
def burst : Burst := ⟨d.axburst, d.axaddr.toNat, d.numberBytes, d.beats⟩

end Descriptor

/-- `memmove` within a buffer. -/
def memmove (old : ℕ → Byte) (dst : ℕ) (src : ℕ → Byte) (pos len : ℕ) : ℕ → Byte :=
  fun i => if dst ≤ i ∧ i < dst + len then src (pos + (i - dst)) else old i

variable (d : Descriptor cfg)

/-! ### Writes -/

/-- `pos` and the two buffers. -/
structure Compaction where
  pos : ℕ
  d8 : ℕ → Byte
  be8 : ℕ → Byte

/-- `len` of a beat but the first one. -/
def beatLen : ℕ := if d.axburst = .fixed then d.numberBytes - d.unaligned else d.numberBytes

/-- Where the bytes of beat `b` are in its bus word, and the words before it. -/
def beatPos (pos b : ℕ) : ℕ := (if d.axburst = .fixed then d.offset else pos % cfg.dataBytewidth) + b * cfg.dataBytewidth

/-- The loop body for beat `b`. -/
def compactBeat (c : Compaction) (b : ℕ) : Compaction where
  pos := c.pos + beatLen d
  d8 := memmove c.d8 c.pos c.d8 (beatPos d c.pos b) (beatLen d)
  be8 := memmove c.be8 c.pos c.be8 (beatPos d c.pos b) (beatLen d)

/-- The beats of the burst are not simply one behind the other. -/
def Apart : Prop := 1 < d.burstLength ∧ (d.axburst = .fixed ∨ d.numberBytes < cfg.dataBytewidth)

instance : Decidable (Apart d) := inferInstanceAs (Decidable (_ ∧ _))

/-- The buffers of a write, with `tx_size`. -/
def compact (d8 be8 : ℕ → Byte) : Compaction :=
  if Apart d then (List.range' 1 (d.burstLength - 1)).foldl (compactBeat d) ⟨d.offset + (d.numberBytes - d.unaligned), d8, be8⟩
  else ⟨d.size, d8, be8⟩

/-- The payload of a transaction of `txSize` bytes with its offset, with its byte enables if there are any. -/
def payload (cmd : Command) (txSize : ℕ) (d8 : ℕ → Byte) (be8 : Option (ℕ → Byte)) : GenericPayload where
  command := cmd
  address := d.axaddr
  data := fun k => d8 (d.offset + k)
  dataLength := txSize - d.offset
  byteEnable :=
    match be8 with
    | some be8 => (List.range (txSize - d.offset)).map fun k => be8 (d.offset + k)
    | none => []
  streamingWidth := if d.axburst = .fixed then d.numberBytes - d.unaligned else txSize - d.offset

/-- The payload of a write. -/
def writePayload (d8 be8 : ℕ → Byte) (beNeeded : Bool) : GenericPayload :=
  let c := compact d d8 be8
  payload d .write c.pos c.d8 (if beNeeded = true then some c.be8 else none)

/-! ### Reads -/

/-- `tx_size` of a read. -/
def readTxSize : ℕ :=
  if 1 < d.burstLength ∧ d.numberBytes < cfg.dataBytewidth then d.offset + d.numberBytes * d.burstLength - d.unaligned else d.size

/-- The payload of a read. -/
def readPayload (d8 : ℕ → Byte) : GenericPayload := payload d .read (readTxSize d) d8 none

/-- `pos` and the buffer. -/
structure Expansion where
  pos : ℕ
  d8 : ℕ → Byte

/-- The loop body for beat `b`. -/
def expandBeat (bounce : ℕ → Byte) (e : Expansion) (b : ℕ) : Expansion where
  pos := e.pos + beatLen d
  d8 := memmove e.d8 (beatPos d e.pos b) bounce e.pos (beatLen d)

/-- `sizeof bounce_d8`. -/
def bounceSize : ℕ := 4096

/-- The buffer of a read behind its access; `none` is a store behind the end of the one on the stack. -/
def expand (d8 : ℕ → Byte) : Option (ℕ → Byte) :=
  if Apart d then
    if bounceSize < readTxSize d then none
    else some ((List.range' 1 (d.burstLength - 1)).foldl (expandBeat d d8) ⟨d.offset + (d.numberBytes - d.unaligned), d8⟩).d8
  else some d8

/-! ### What is asked of them -/

/-- A write burst: the strobes of its active lanes, and whether the hardware has found one that is not set. -/
structure WriteBurst (cfg : Config) extends Descriptor cfg where
  strobe : ℕ → ℕ → Bool
  beNeeded : Bool
  active : ∀ n l, strobe n l = true → toDescriptor.burst.Active cfg.dataBytewidth n l
  all : beNeeded = false → ∀ n < beats, ∀ l < cfg.dataBytewidth, strobe n l = true

/-- The beats one behind the other. -/
def words (bytewidth : ℕ) (f : ℕ → ℕ → Byte) (p : ℕ) : Byte := f (p / bytewidth) (p % bytewidth)

/-- The byte of a strobe. -/
def strobeByte (s : Bool) : Byte := if s = true then byteEnabled else 0

/-- The payload writes what AXI makes of the strobed lanes, whatever their bytes. -/
def WriteOk (w : WriteBurst cfg) : Prop :=
  ∀ data : ℕ → ℕ → Byte,
    (writePayload w.toDescriptor (words cfg.dataBytewidth data) (words cfg.dataBytewidth fun n l => strobeByte (w.strobe n l)) w.beNeeded).writes =
      (w.burst.writes cfg.dataBytewidth ((List.range' 0 w.beats).map fun n => ⟨data n, w.strobe n⟩)).map (Prod.map (BitVec.ofNat 64) id)

/-- What a beat of the buffer has on its lanes. -/
def beatOf (bytewidth : ℕ) (d8 : ℕ → Byte) (n : ℕ) : Beat Byte := ⟨fun l => d8 (n * bytewidth + l), fun _ => true⟩

/-- The active lanes of the beats have the first bytes of the payload, in its order and at their addresses. -/
def ReadOk : Prop :=
  ∀ d8 : ℕ → Byte, ∃ d8', expand d d8 = some d8' ∧
    ∃ len ≤ (readPayload d d8).dataLength,
      (d.burst.writes cfg.dataBytewidth ((List.range' 0 d.beats).map (beatOf cfg.dataBytewidth d8'))).map (Prod.map (BitVec.ofNat 64) id) =
        (List.range len).map fun k => ((readPayload d d8).byteAddr k, (readPayload d d8).data k)

variable {d : Descriptor cfg} {n i b : ℕ}

/-! ### A burst in bytes -/

theorem dataBytewidth_pos (cfg : Config) : 0 < cfg.dataBytewidth := Nat.two_pow_pos _

namespace Descriptor

theorem numberBytes_pos (d : Descriptor cfg) : 0 < d.numberBytes := Nat.two_pow_pos _

theorem numberBytes_dvd (d : Descriptor cfg) : d.numberBytes ∣ cfg.dataBytewidth := pow_dvd_pow 2 d.axsize_le

theorem burstLength_eq (d : Descriptor cfg) : d.burstLength = d.beats := by
  have hB := dataBytewidth_pos cfg
  obtain ⟨m, hm⟩ := Nat.exists_eq_add_one.2 d.beats_pos
  have hdiv : (d.size - 1) / cfg.dataBytewidth = m := by
    rw [size, hm, Nat.succ_mul]
    exact Nat.div_eq_of_lt_le (by omega) (by rw [Nat.succ_mul]; omega)
  rw [burstLength, axlen, hdiv, hm]

theorem offset_eq (d : Descriptor cfg) : d.offset = d.axaddr.toNat % cfg.dataBytewidth := by
  rw [offset, Nat.mod_eq_sub_div_mul]

theorem unaligned_eq (d : Descriptor cfg) : d.unaligned = d.axaddr.toNat % d.numberBytes := Nat.and_two_pow_sub_one_eq_mod _ _

theorem unaligned_lt (d : Descriptor cfg) : d.unaligned < d.numberBytes := d.unaligned_eq ▸ Nat.mod_lt _ d.numberBytes_pos

/-- The bytes of a beat. -/
def width (d : Descriptor cfg) (n : ℕ) : ℕ := d.numberBytes - d.burst.beatAddr n % d.numberBytes

/-- The bytes of the beats before one, if the burst does not wrap. -/
def cut (d : Descriptor cfg) (n : ℕ) : ℕ :=
  if d.axburst = .fixed then n * (d.numberBytes - d.unaligned) else n * d.numberBytes - d.unaligned

theorem width_le (d : Descriptor cfg) (n : ℕ) : d.width n ≤ d.numberBytes := Nat.sub_le _ _

theorem cut_zero (d : Descriptor cfg) : d.cut 0 = 0 := by
  simp [cut]

theorem beatAddr_zero (d : Descriptor cfg) : d.burst.beatAddr 0 = d.axaddr.toNat :=
  Burst.beatAddr_zero (Nat.mul_pos d.numberBytes_pos d.beats_pos)

theorem width_zero (d : Descriptor cfg) : d.width 0 = d.numberBytes - d.unaligned := by
  rw [width, beatAddr_zero, unaligned_eq]

/-- The beats of a burst that does not wrap. -/
theorem beatAddr_fixed (h : d.axburst = .fixed) (n : ℕ) : d.burst.beatAddr n = d.axaddr.toNat := by
  simp only [Burst.beatAddr, burst, h]

theorem beatAddr_incr (h : d.axburst = .incr) (n : ℕ) : d.burst.beatAddr n = d.axaddr.toNat + d.cut n := by
  have hlin : d.burst.beatAddr n = d.burst.linearAddr n := by
    simp only [Burst.beatAddr, burst, h]
  have hmod := alignDown_add_mod d.axaddr.toNat d.numberBytes
  have hu := d.unaligned_lt
  rw [unaligned_eq] at hu
  rw [hlin, cut, if_neg (by rw [h]; decide), unaligned_eq]
  rcases Nat.eq_zero_or_pos n with rfl | hpos
  · simp [Burst.linearAddr, burst]
  · have hle := Nat.le_mul_of_pos_left d.numberBytes hpos
    rw [Burst.linearAddr_of_pos hpos]
    show alignDown d.axaddr.toNat d.numberBytes + n * d.numberBytes = _
    omega

theorem width_fixed (h : d.axburst = .fixed) (n : ℕ) : d.width n = d.numberBytes - d.unaligned := by
  rw [width, beatAddr_fixed h, unaligned_eq]

theorem width_incr (h : d.axburst = .incr) (hn : 0 < n) : d.width n = d.numberBytes := by
  have hmod := alignDown_add_mod d.axaddr.toNat d.numberBytes
  have hu := d.unaligned_lt
  rw [unaligned_eq] at hu
  have hle := Nat.le_mul_of_pos_left d.numberBytes hn
  have haligned : d.axaddr.toNat + d.cut n = alignDown d.axaddr.toNat d.numberBytes + n * d.numberBytes := by
    rw [cut, if_neg (by rw [h]; decide), unaligned_eq]
    omega
  rw [width, beatAddr_incr h, haligned, Nat.mod_eq_zero_of_dvd, Nat.sub_zero]
  exact Nat.dvd_add (dvd_alignDown _ _) (Nat.dvd_mul_left _ _)

theorem cut_succ (h : d.axburst ≠ .wrap) (n : ℕ) : d.cut (n + 1) = d.cut n + d.width n := by
  have hu := d.unaligned_lt
  cases hb : d.axburst with
  | fixed =>
    rw [width_fixed hb, cut, cut, if_pos hb, if_pos hb, Nat.succ_mul]
  | incr =>
    have hne : ¬ d.axburst = .fixed := by rw [hb]; decide
    rw [cut, cut, if_neg hne, if_neg hne, Nat.succ_mul]
    rcases Nat.eq_zero_or_pos n with rfl | hpos
    · rw [width_zero]
      omega
    · have hle := Nat.le_mul_of_pos_left d.numberBytes hpos
      rw [width_incr hb hpos]
      omega
  | wrap => exact absurd hb h

/-- The address of a byte of the payload, as a number. -/
def payloadAddr (d : Descriptor cfg) (k : ℕ) : ℕ :=
  d.axaddr.toNat + if d.axburst = .fixed then k % (d.numberBytes - d.unaligned) else k

/-- The address of byte `i` of beat `n`. -/
theorem payloadAddr_cut (h : d.axburst ≠ .wrap) (hlt : i < d.width n) : d.payloadAddr (d.cut n + i) = d.burst.beatAddr n + i := by
  rw [payloadAddr]
  cases hb : d.axburst with
  | fixed =>
    rw [width_fixed hb] at hlt
    rw [if_pos rfl, cut, if_pos hb, Nat.mul_add_mod', Nat.mod_eq_of_lt hlt, beatAddr_fixed hb]
  | incr => rw [if_neg (by decide), beatAddr_incr hb, Nat.add_assoc]
  | wrap => exact absurd hb h

theorem byteAddr_payload (d : Descriptor cfg) (cmd : Command) {txSize k : ℕ} (d8 : ℕ → Byte) (be8 : Option (ℕ → Byte)) (hk : k < txSize - d.offset) :
    (payload d cmd txSize d8 be8).byteAddr k = BitVec.ofNat 64 (d.payloadAddr k) := by
  rw [GenericPayload.byteAddr_eq, payloadAddr]
  show BitVec.ofNat 64 (d.axaddr.toNat + k % (if d.axburst = .fixed then d.numberBytes - d.unaligned else txSize - d.offset)) = _
  split
  · rfl
  · rw [Nat.mod_eq_of_lt hk]

/-- The bytes of a beat are in one word of the bus. -/
theorem lane_add_width_le (d : Descriptor cfg) (n : ℕ) : d.burst.beatAddr n % cfg.dataBytewidth + d.width n ≤ cfg.dataBytewidth := by
  have hend := alignDown_add_le_alignDown d.numberBytes_dvd (dataBytewidth_pos cfg) (d.burst.beatAddr n)
  have hmod := alignDown_add_mod (d.burst.beatAddr n) cfg.dataBytewidth
  have hmods := alignDown_add_mod (d.burst.beatAddr n) d.numberBytes
  have hlt := Nat.mod_lt (d.burst.beatAddr n) d.numberBytes_pos
  rw [width]
  omega

theorem numberBytes_le (d : Descriptor cfg) : d.numberBytes ≤ cfg.dataBytewidth := Nat.le_of_dvd (dataBytewidth_pos cfg) d.numberBytes_dvd

/-- The bytes before a beat have room in the words before it. -/
theorem offset_add_cut_le (h : d.axburst ≠ .wrap) (hn : 0 < n) : d.offset + d.cut n ≤ n * cfg.dataBytewidth := by
  induction n with
  | zero => exact absurd hn (lt_irrefl 0)
  | succ n ih =>
    rw [cut_succ h, Nat.succ_mul]
    rcases Nat.eq_zero_or_pos n with rfl | hpos
    · have hroom := d.lane_add_width_le 0
      rw [beatAddr_zero, ← offset_eq] at hroom
      rw [cut_zero]
      omega
    · have := ih hpos
      have := d.width_le n
      have := d.numberBytes_le
      omega

end Descriptor

open Descriptor

/-! ### The loops -/

/-- The place of a beat is where its bytes are on the bus. -/
theorem beatPos_eq (h : d.axburst ≠ .wrap) (hb : 0 < b) :
    beatPos d (d.offset + d.cut b) b = b * cfg.dataBytewidth + d.burst.beatAddr b % cfg.dataBytewidth ∧ beatLen d = d.width b := by
  rw [beatPos, beatLen]
  cases hburst : d.axburst with
  | fixed =>
    rw [if_pos rfl, if_pos rfl, beatAddr_fixed hburst, width_fixed hburst, offset_eq, Nat.add_comm]
    exact ⟨rfl, rfl⟩
  | incr =>
    rw [if_neg (by decide), if_neg (by decide), beatAddr_incr hburst, width_incr hburst hb, offset_eq,
      Nat.mod_add_mod, Nat.add_comm]
    exact ⟨rfl, rfl⟩
  | wrap => exact absurd hburst h

/-- The bytes of the beats before `n` are one behind the other, and those behind them are where they were. -/
structure Gathered (d : Descriptor cfg) (src buf : ℕ → Byte) (n : ℕ) : Prop where
  moved : ∀ m < n, ∀ i < d.width m, buf (d.offset + d.cut m + i) = src (m * cfg.dataBytewidth + d.burst.beatAddr m % cfg.dataBytewidth + i)
  kept : ∀ p, d.offset + d.cut n ≤ p → buf p = src p

theorem gathered_one (d : Descriptor cfg) (src : ℕ → Byte) : Gathered d src src 1 := by
  refine ⟨fun m hm i _ => ?_, fun p _ => rfl⟩
  obtain rfl : m = 0 := by omega
  rw [d.cut_zero, d.beatAddr_zero, ← d.offset_eq, Nat.zero_mul, Nat.zero_add, Nat.add_zero]

/-- One more beat: its bytes are still in their place. -/
theorem Gathered.memmove {src buf : ℕ → Byte} (h : Gathered d src buf n) (hwrap : d.axburst ≠ .wrap) (hn : 0 < n) :
    Gathered d src (memmove buf (d.offset + d.cut n) buf (beatPos d (d.offset + d.cut n) n) (beatLen d)) (n + 1) := by
  obtain ⟨hpos, hlen⟩ := beatPos_eq hwrap hn
  have hroom := offset_add_cut_le hwrap hn
  have hcut := cut_succ hwrap n
  rw [hpos, hlen]
  constructor
  · intro m hm i hi
    rw [Axi2TlmHw.memmove]
    rcases Nat.lt_succ_iff_lt_or_eq.1 hm with hlt | rfl
    · have hmono : d.cut m + d.width m ≤ d.cut n := by
        rw [← cut_succ hwrap]
        exact monotone_nat_of_le_succ (fun k => (cut_succ hwrap k).symm ▸ Nat.le_add_right _ _) hlt
      rw [if_neg (by omega)]
      exact h.moved m hlt i hi
    · rw [if_pos (by omega), Nat.add_sub_cancel_left]
      exact h.kept _ (by omega)
  · intro p hp
    rw [Axi2TlmHw.memmove, if_neg (by omega)]
    exact h.kept p (by omega)

theorem compact_loop (hwrap : d.axburst ≠ .wrap) (d8 be8 : ℕ → Byte) (k : ℕ) :
    let c := (List.range' 1 k).foldl (compactBeat d) ⟨d.offset + (d.numberBytes - d.unaligned), d8, be8⟩
    c.pos = d.offset + d.cut (k + 1) ∧ Gathered d d8 c.d8 (k + 1) ∧ Gathered d be8 c.be8 (k + 1) := by
  induction k with
  | zero =>
    refine ⟨?_, gathered_one d d8, gathered_one d be8⟩
    rw [cut_succ hwrap, d.cut_zero, d.width_zero, Nat.zero_add]
    rfl
  | succ k ih =>
    obtain ⟨hpos, hd8, hbe8⟩ := ih
    rw [List.range'_1_concat, List.foldl_append, List.foldl_cons, List.foldl_nil, Nat.add_comm 1 k]
    simp only [compactBeat, hpos]
    refine ⟨?_, hd8.memmove hwrap (Nat.succ_pos k), hbe8.memmove hwrap (Nat.succ_pos k)⟩
    rw [(beatPos_eq hwrap (Nat.succ_pos k)).2, cut_succ hwrap (k + 1), Nat.add_assoc]

/-- The bytes of the beats before `n` are each in the word of its beat. -/
def Spread (d : Descriptor cfg) (src buf : ℕ → Byte) (n : ℕ) : Prop :=
  ∀ m < n, ∀ i < d.width m, buf (m * cfg.dataBytewidth + d.burst.beatAddr m % cfg.dataBytewidth + i) = src (d.offset + d.cut m + i)

theorem spread_one (d : Descriptor cfg) (src : ℕ → Byte) : Spread d src src 1 := fun m hm i hi => ((gathered_one d src).moved m hm i hi).symm

theorem Spread.memmove {src buf : ℕ → Byte} (h : Spread d src buf n) (hwrap : d.axburst ≠ .wrap) (hn : 0 < n) :
    Spread d src (memmove buf (beatPos d (d.offset + d.cut n) n) src (d.offset + d.cut n) (beatLen d)) (n + 1) := by
  obtain ⟨hpos, hlen⟩ := beatPos_eq hwrap hn
  rw [hpos, hlen]
  intro m hm i hi
  rw [Axi2TlmHw.memmove]
  rcases Nat.lt_succ_iff_lt_or_eq.1 hm with hlt | rfl
  · have hword := d.lane_add_width_le m
    have hnext : (m + 1) * cfg.dataBytewidth ≤ n * cfg.dataBytewidth := Nat.mul_le_mul_right _ hlt
    rw [Nat.succ_mul] at hnext
    rw [if_neg (by omega)]
    exact h m hlt i hi
  · rw [if_pos (by omega), Nat.add_sub_cancel_left]

theorem expand_loop (hwrap : d.axburst ≠ .wrap) (d8 : ℕ → Byte) (k : ℕ) :
    let e := (List.range' 1 k).foldl (expandBeat d d8) ⟨d.offset + (d.numberBytes - d.unaligned), d8⟩
    e.pos = d.offset + d.cut (k + 1) ∧ Spread d d8 e.d8 (k + 1) := by
  induction k with
  | zero =>
    refine ⟨?_, spread_one d d8⟩
    rw [cut_succ hwrap, d.cut_zero, d.width_zero, Nat.zero_add]
    rfl
  | succ k ih =>
    obtain ⟨hpos, hd8⟩ := ih
    rw [List.range'_1_concat, List.foldl_append, List.foldl_cons, List.foldl_nil, Nat.add_comm 1 k]
    simp only [expandBeat, hpos]
    refine ⟨?_, hd8.memmove hwrap (Nat.succ_pos k)⟩
    rw [(beatPos_eq hwrap (Nat.succ_pos k)).2, cut_succ hwrap (k + 1), Nat.add_assoc]

/-- A burst whose beats are one behind the other already: one beat, or words of the bus. -/
theorem one_or_whole (hwrap : d.axburst ≠ .wrap) (h : ¬ Apart d) : d.beats = 1 ∨ (d.axburst = .incr ∧ d.numberBytes = cfg.dataBytewidth) := by
  have hpos := d.beats_pos
  have hle := d.numberBytes_le
  rw [Apart, d.burstLength_eq, not_and_or, not_or] at h
  rcases h with h | ⟨hfix, hnb⟩
  · exact .inl (by omega)
  · cases hb : d.axburst with
    | fixed => exact absurd hb hfix
    | incr => exact .inr ⟨rfl, by omega⟩
    | wrap => exact absurd hb hwrap

/-- Words of the bus are where their bytes are. -/
theorem gathered_whole (hb : d.axburst = .incr) (hnb : d.numberBytes = cfg.dataBytewidth) (src : ℕ → Byte) (n : ℕ) : Gathered d src src n := by
  have hne : ¬ d.axburst = .fixed := by rw [hb]; decide
  have hwrap : d.axburst ≠ .wrap := by rw [hb]; decide
  refine ⟨fun m hm i _ => ?_, fun p _ => rfl⟩
  rcases Nat.eq_zero_or_pos m with rfl | hpos
  · exact (gathered_one d src).moved 0 Nat.zero_lt_one i ‹_›
  · have hplace := (beatPos_eq hwrap hpos).1
    have hu : d.unaligned = d.offset := by rw [d.unaligned_eq, d.offset_eq, hnb]
    have hle := Nat.le_mul_of_pos_left cfg.dataBytewidth hpos
    have hlt := d.unaligned_lt
    rw [beatPos, if_neg hne, cut, if_neg hne, hu, hnb, Nat.add_sub_cancel' (by omega), Nat.mul_mod_left] at hplace
    rw [cut, if_neg hne, hu, hnb, Nat.add_sub_cancel' (by omega)]
    exact congrArg src (by omega)

theorem gathered_of_not_apart (hwrap : d.axburst ≠ .wrap) (h : ¬ Apart d) (src : ℕ → Byte) : Gathered d src src d.beats := by
  rcases one_or_whole hwrap h with hone | ⟨hb, hnb⟩
  · rw [hone]
    exact gathered_one d src
  · exact gathered_whole hb hnb src _

/-- The size of the transaction has room for the beats. -/
theorem cut_le_size (hwrap : d.axburst ≠ .wrap) : d.offset + d.cut d.beats ≤ d.size := offset_add_cut_le hwrap d.beats_pos

/-- **The buffers of a write**: the bytes of the beats are one behind the other from the offset on, and what is behind them is
as it was. -/
theorem compact_spec (hwrap : d.axburst ≠ .wrap) (d8 be8 : ℕ → Byte) :
    Gathered d d8 (compact d d8 be8).d8 d.beats ∧ Gathered d be8 (compact d d8 be8).be8 d.beats ∧
      d.offset + d.cut d.beats ≤ (compact d d8 be8).pos ∧
      (compact d d8 be8).pos = if Apart d then d.offset + d.cut d.beats else d.size := by
  rw [compact]
  split
  next h =>
    obtain ⟨k, hk⟩ := Nat.exists_eq_add_one.2 d.beats_pos
    have hloop := compact_loop hwrap d8 be8 k
    rw [d.burstLength_eq, hk, Nat.add_sub_cancel]
    exact ⟨hloop.2.1, hloop.2.2, hloop.1.ge, hloop.1⟩
  next h => exact ⟨gathered_of_not_apart hwrap h d8, gathered_of_not_apart hwrap h be8, cut_le_size hwrap, rfl⟩

/-! ### Writes -/

theorem words_lane (f : ℕ → ℕ → Byte) {l : ℕ} (hl : l < cfg.dataBytewidth) : words cfg.dataBytewidth f (n * cfg.dataBytewidth + l) = f n l := by
  rw [words, Nat.mul_comm, Nat.mul_add_div (dataBytewidth_pos cfg), Nat.div_eq_of_lt hl, Nat.mul_add_mod, Nat.mod_eq_of_lt hl, Nat.add_zero]

theorem strobeByte_iff (s : Bool) : strobeByte s = byteEnabled ↔ s = true := by
  cases s <;> decide

/-- A byte of the payload is enabled by its strobe; without byte enables all are. -/
theorem enabled_payload (cmd : Command) {txSize k : ℕ} (d8 be8 : ℕ → Byte) (beNeeded : Bool) (hk : k < txSize - d.offset) :
    (payload d cmd txSize d8 (if beNeeded = true then some be8 else none)).enabled k = true ↔
      beNeeded = true → be8 (d.offset + k) = byteEnabled := by
  cases beNeeded with
  | false => simp [payload, GenericPayload.enabled]
  | true =>
    have hne : ((List.range (txSize - d.offset)).map fun k => be8 (d.offset + k)).isEmpty = false := by
      simp
      omega
    rw [if_pos rfl, GenericPayload.enabled, payload]
    simp only [hne, Bool.false_or, decide_eq_true_eq, List.length_map, List.length_range, Nat.mod_eq_of_lt hk, List.getElem?_map,
      List.getElem?_range hk, Option.map_some, Option.some.injEq, forall_const]

/-- The lanes behind the only beat of a burst are not strobed. -/
theorem strobe_behind (w : WriteBurst cfg) {k : ℕ} (hk : w.width 0 ≤ k) : w.strobe 0 (w.offset + k) = false := by
  refine Bool.eq_false_iff.2 fun hs => ?_
  have hactive := (w.active 0 _ hs).2
  have hmod := alignDown_add_mod w.axaddr.toNat cfg.dataBytewidth
  have hmods := alignDown_add_mod w.axaddr.toNat w.numberBytes
  rw [Burst.laneAddr, w.beatAddr_zero, w.offset_eq] at hactive
  rw [w.width_zero, w.unaligned_eq] at hk
  have hactive : alignDown w.axaddr.toNat cfg.dataBytewidth + (w.axaddr.toNat % cfg.dataBytewidth + k) < alignDown w.axaddr.toNat w.numberBytes + w.numberBytes :=
    hactive
  omega

/-- What is behind the bytes of the beats is not enabled. -/
theorem not_enabled_behind (w : WriteBurst cfg) (hwrap : w.axburst ≠ .wrap) {be8 : ℕ → Byte} {k : ℕ}
    (hbe : Gathered w.toDescriptor (words cfg.dataBytewidth fun n l => strobeByte (w.strobe n l)) be8 w.beats) (hk : w.cut w.beats ≤ k)
    (hlt : k < (if Apart w.toDescriptor then w.offset + w.cut w.beats else w.size) - w.offset) :
    w.beNeeded = true ∧ be8 (w.offset + k) ≠ byteEnabled := by
  split at hlt
  · omega
  next h =>
    rcases one_or_whole hwrap h with hone | ⟨hb, hnb⟩
    · have hcut : w.cut w.beats = w.width 0 := by rw [hone, cut_succ hwrap, w.cut_zero, Nat.zero_add]
      rw [size, hone, Nat.one_mul] at hlt
      have hoff := strobe_behind w (hcut ▸ hk)
      constructor
      · by_contra hne
        have hall := w.all (Bool.eq_false_iff.2 hne) 0 (by omega) (w.offset + k) (by omega)
        exact Bool.false_ne_true (hoff.symm.trans hall)
      · have hkept := hbe.kept (w.offset + k) (by omega)
        have hlane := words_lane (fun n l => strobeByte (w.strobe n l)) (n := 0) (show w.offset + k < cfg.dataBytewidth by omega)
        rw [Nat.zero_mul, Nat.zero_add] at hlane
        rw [hkept, hlane, ne_eq, strobeByte_iff, hoff]
        exact Bool.false_ne_true
    · have hne : ¬ w.axburst = .fixed := by rw [hb]; decide
      have hu : w.unaligned = w.offset := by rw [w.unaligned_eq, w.offset_eq, hnb]
      rw [cut, if_neg hne, hu, hnb] at hk
      rw [size] at hlt
      omega

/-- **A write of a burst that does not wrap** writes what AXI makes of its strobed lanes. -/
theorem write_right (w : WriteBurst cfg) (hwrap : w.axburst ≠ .wrap) : WriteOk w := by
  intro data
  obtain ⟨hd8, hbe8, hle, hpos⟩ := compact_spec hwrap (words cfg.dataBytewidth data) (words cfg.dataBytewidth fun n l => strobeByte (w.strobe n l))
  rw [writePayload]
  generalize compact w.toDescriptor (words cfg.dataBytewidth data) (words cfg.dataBytewidth fun n l => strobeByte (w.strobe n l)) = c at *
  -- an enabled byte of the payload, at its address as a number
  let g (k : ℕ) : Option (ℕ × Byte) :=
    if w.beNeeded = true → c.be8 (w.offset + k) = byteEnabled then some (w.payloadAddr k, c.d8 (w.offset + k)) else none
  have hburst : w.burst.writes cfg.dataBytewidth ((List.range' 0 w.beats).map fun n => ⟨data n, w.strobe n⟩) = (List.range (w.cut w.beats)).filterMap g := by
    refine w.burst.writes_eq_filterMap cfg.dataBytewidth w.numberBytes_dvd w.numberBytes_pos (dataBytewidth_pos cfg) _ g w.cut_zero (cut_succ hwrap) fun n hn i hi => ?_
    have hlane := w.lane_add_width_le n
    have hin : w.burst.beatAddr n % cfg.dataBytewidth + i < cfg.dataBytewidth := Nat.lt_of_lt_of_le (Nat.add_lt_add_left hi _) hlane
    have hdata := hd8.moved n hn i hi
    have hstrobe := hbe8.moved n hn i hi
    rw [Nat.add_assoc, Nat.add_assoc, words_lane _ hin] at hdata hstrobe
    simp only [g]
    rw [hdata, hstrobe, payloadAddr_cut hwrap hi]
    refine if_congr ⟨fun h => ?_, fun h _ => (strobeByte_iff _).2 h⟩ rfl rfl
    cases hbe : w.beNeeded with
    | true => exact (strobeByte_iff _).1 (h hbe)
    | false => exact w.all hbe n hn _ hin
  rw [hburst, List.map_filterMap, filterMap_range_le _ (show w.cut w.beats ≤ c.pos - w.offset by omega)]
  refine List.filterMap_congr fun k hk => ?_
  have hk : k < c.pos - w.offset := List.mem_range.1 hk
  have henabled := enabled_payload (d := w.toDescriptor) .write c.d8 c.be8 w.beNeeded hk
  rw [w.byteAddr_payload _ _ _ hk]
  by_cases hin : k < w.cut w.beats
  · rw [if_pos hin]
    simp only [g]
    by_cases hon : w.beNeeded = true → c.be8 (w.offset + k) = byteEnabled
    · rw [if_pos (henabled.2 hon), if_pos hon]
      rfl
    · rw [if_neg fun h => hon (henabled.1 h), if_neg hon]
      rfl
  · obtain ⟨hneeded, hnot⟩ := not_enabled_behind w hwrap hbe8 (not_lt.1 hin) (hpos ▸ hk)
    rw [if_neg hin, if_neg fun h => hnot (henabled.1 h hneeded)]

/-! ### Reads -/

theorem offset_add_cut_le_readTxSize (hwrap : d.axburst ≠ .wrap) : d.offset + d.cut d.beats ≤ readTxSize d := by
  rw [readTxSize]
  split
  · have hu := d.unaligned_lt
    rw [d.burstLength_eq, cut]
    have hle := Nat.le_mul_of_pos_left d.numberBytes d.beats_pos
    rw [Nat.mul_comm d.numberBytes]
    split
    · rw [Nat.mul_sub]
      have hu' := Nat.le_mul_of_pos_left d.unaligned d.beats_pos
      omega
    · omega
  · exact cut_le_size hwrap

/-- The buffer of a read has the bytes of the payload on the lanes of the beats. -/
theorem spread_expand (hwrap : d.axburst ≠ .wrap) {d8 d8' : ℕ → Byte} (h : expand d d8 = some d8') : Spread d d8 d8' d.beats := by
  rw [expand] at h
  split at h
  next hapart =>
    split at h
    · simp at h
    · obtain rfl := Option.some.inj h
      obtain ⟨k, hk⟩ := Nat.exists_eq_add_one.2 d.beats_pos
      rw [d.burstLength_eq, hk, Nat.add_sub_cancel]
      exact (expand_loop hwrap d8 k).2
  next hapart =>
    obtain rfl := Option.some.inj h
    exact fun m hm i hi => ((gathered_of_not_apart hwrap hapart d8).moved m hm i hi).symm

theorem writes_of_spread (hwrap : d.axburst ≠ .wrap) {d8 d8' : ℕ → Byte} (h : Spread d d8 d8' d.beats) :
    d.burst.writes cfg.dataBytewidth ((List.range' 0 d.beats).map (beatOf cfg.dataBytewidth d8')) =
      (List.range (d.cut d.beats)).map fun k => (d.payloadAddr k, d8 (d.offset + k)) := by
  refine (d.burst.writes_eq_filterMap cfg.dataBytewidth d.numberBytes_dvd d.numberBytes_pos (dataBytewidth_pos cfg) _
    (some ∘ fun k => (d.payloadAddr k, d8 (d.offset + k))) d.cut_zero (cut_succ hwrap) fun n hn i hi => ?_).trans
    (congrFun List.filterMap_eq_map _)
  have hdata := h n hn i hi
  rw [Nat.add_assoc, Nat.add_assoc] at hdata
  rw [Function.comp_apply, payloadAddr_cut hwrap hi, ← hdata]
  exact (if_pos rfl).symm

/-- **A read of a burst that does not wrap** is right exactly if its bytes fit on the stack, where they have to be moved apart. -/
theorem read_right_iff (d : Descriptor cfg) (hwrap : d.axburst ≠ .wrap) : ReadOk d ↔ (Apart d → readTxSize d ≤ bounceSize) := by
  constructor
  · intro h hapart
    obtain ⟨d8', hsome, -⟩ := h fun _ => 0
    by_contra hbig
    rw [expand, if_pos hapart, if_pos (by omega)] at hsome
    simp at hsome
  · intro h d8
    have hsome : ∃ d8', expand d d8 = some d8' := by
      rw [expand]
      split
      next hapart => exact ⟨_, if_neg (not_lt.2 (h hapart))⟩
      · exact ⟨_, rfl⟩
    obtain ⟨d8', hsome⟩ := hsome
    have hle := offset_add_cut_le_readTxSize hwrap
    have hlen : d.cut d.beats ≤ readTxSize d - d.offset := by omega
    refine ⟨d8', hsome, d.cut d.beats, hlen, ?_⟩
    rw [writes_of_spread hwrap (spread_expand hwrap hsome), List.map_map]
    refine List.map_congr_left fun k hk => ?_
    have hk := List.mem_range.1 hk
    rw [readPayload, d.byteAddr_payload _ _ _ (by omega)]
    rfl

/-- A bus of four bytes. -/
def fourBytes : Config := ⟨2, two_le_seven⟩

theorem one_le_log : 1 ≤ fourBytes.log := by decide

/-- Halfwords from an odd address on. -/
def halfwords (beats : ℕ) (h : 0 < beats) : Descriptor fourBytes := ⟨0x1003, 1, beats, .incr, one_le_log, h⟩

theorem three_pos : 0 < 3 := Nat.succ_pos 2

/-- All of their lanes strobed. -/
def halfwordWrite : WriteBurst fourBytes where
  toDescriptor := halfwords 3 three_pos
  strobe := fun n l => decide ((halfwords 3 three_pos).burst.Active 4 n l)
  beNeeded := true
  active := fun _ _ h => of_decide_eq_true h
  all := fun h => Bool.noConfusion h

theorem write_right_halfwords : WriteOk halfwordWrite := write_right halfwordWrite (by decide)

theorem read_right_halfwords : ReadOk (halfwords 3 three_pos) := (read_right_iff (halfwords 3 three_pos) (by decide)).2 (by decide)

end LibSystemCTLM.Axi2TlmHw
