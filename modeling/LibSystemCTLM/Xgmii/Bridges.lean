import LibSystemCTLM.Tlm.Payload
import LibSystemCTLM.Foundation.Runs

/-!
# `tlm2xgmii_bridge` and `xgmii2tlm_bridge`

Ethernet packets between two bridges: the one puts the bytes of a packet on the lanes of an XGMII bus,
between a preamble and a control code for its end (`tlm2xgmii-bridge.h`), the other gathers them in a buffer
of 8 KB and sends them on as one TLM write (`xgmii2tlm-bridge.h`).

## The model

A `Flit` is what the bus carries at one edge of the clock: 64 bits of data and a control bit for each of its
8 lanes, of which the 1G mode has the first alone. `send` lists the flits of a packet, `process` is what the
receiving thread does with one. Its buffer is a function, so that a store behind its end can be written down;
`outside` keeps that there was one.

## Honest scope

The target of the receiver returns at once: a target that waits makes the thread miss flits.
-/

namespace LibSystemCTLM.Xgmii

open Foundation Tlm

/-- `xgmii_mode`. -/
inductive Mode where
  | mode10G | mode1G
  deriving DecidableEq

/-- `mode == MODE_10G ? 8 : 1`. -/
def lanes : Mode → ℕ
  | .mode10G => 8
  | .mode1G => 1

/-- The two signals of the bus. -/
structure Flit where
  xxd : BitVec 64
  xxc : BitVec 8
  deriving DecidableEq

namespace Flit

/-- The byte of a lane and whether it is a control code. -/
def lane (f : Flit) (l : ℕ) : Byte × Bool := ((f.xxd >>> (l * 8)).setWidth 8, f.xxc.getLsbD l)

/-- A byte and its control bit put on a lane. -/
def put (f : Flit) (l : ℕ) (b : Byte) (ctrl : Bool) : Flit :=
  { xxd := f.xxd ||| b.setWidth 64 <<< (l * 8)
    xxc := f.xxc &&& ~~~(1#8 <<< l) ||| (BitVec.ofBool ctrl).setWidth 8 <<< l }

end Flit

/-! ### The sender -/

/-- The loop over the lanes: the flit, with the bytes and the control bits that are left. -/
def fillLanes (lanes : ℕ) : List Byte → ℕ → BitVec 64 → Flit → Flit × List Byte × BitVec 64
  | [], _, ctrl, f => (f, [], ctrl)
  | b :: buf, l, ctrl, f =>
    if l < lanes then fillLanes lanes buf (l + 1) (ctrl >>> 1) (f.put l b (ctrl.getLsbD 0)) else (f, b :: buf, ctrl)

theorem fillLanes_length_le (n : ℕ) (buf : List Byte) (l : ℕ) (ctrl : BitVec 64) (f : Flit) :
    (fillLanes n buf l ctrl f).2.1.length ≤ buf.length := by
  induction buf generalizing l ctrl f with
  | nil => exact Nat.le_refl _
  | cons b buf ih =>
    rw [fillLanes]
    split
    · exact Nat.le_trans (ih _ _ _) (Nat.le_succ _)
    · exact Nat.le_refl _

/-- `push_data_buf`: a flit with as many bytes as there are lanes for, and so on. -/
def pushDataBuf (m : Mode) (buf : List Byte) (ctrl : BitVec 64) : List Flit :=
  match buf with
  | [] => []
  | b :: rest =>
    let r := fillLanes (lanes m) rest 1 (ctrl >>> 1) (Flit.put ⟨0, 0xff⟩ 0 b (ctrl.getLsbD 0))
    r.1 :: pushDataBuf m r.2.1 r.2.2
termination_by buf.length
decreasing_by exact Nat.lt_succ_of_le (fillLanes_length_le _ _ _ _ _)

/-- `idle_seq`. -/
def idleSeq : List Byte := List.replicate 8 0x07

/-- `sof_preamble_seq`. -/
def sofPreambleSeq : List Byte := 0xfb :: List.replicate 6 0x55 ++ [0xd5]

/-- The checksum, which stands for any. -/
def checksum : List Byte := [0xc0, 0xc1, 0xc2, 0xc3]

/-- `last.d` up to the end of frame: the bytes that do not fill a flit, the checksum and the end of frame. -/
def last (p : List Byte) : List Byte := p.drop (p.length / 8 * 8) ++ checksum ++ [0xfd]

/-- `last.d`, filled up with idle codes, as far as it is sent. -/
def lastFlits (p : List Byte) : List Byte :=
  last p ++ List.replicate ((if 8 < (last p).length then 16 else 8) - (last p).length) 0x07

/-- `last.c`. -/
def lastCtrl (p : List Byte) : BitVec 64 := (0xffffffff#32 <<< ((last p).length - 1)).setWidth 64

/-- `process_packet`. -/
def send (m : Mode) (p : List Byte) : List Flit :=
  pushDataBuf m idleSeq 0xff ++ pushDataBuf m idleSeq 0xff ++
    pushDataBuf m sofPreambleSeq 1 ++
    pushDataBuf m (p.take (p.length / 8 * 8)) 0 ++
    pushDataBuf m (lastFlits p) (lastCtrl p) ++
    pushDataBuf m idleSeq 0xff

/-! ### The receiver -/

/-- `sizeof buf`. -/
def bufSize : ℕ := 8 * 1024

/-- What the receiver hands to `b_transport`: the pointer to its buffer, and the length it sets. -/
structure Emitted where
  dataPtr : ℕ → Byte
  dataLength : BitVec 32

/-- The bytes of a payload. -/
def Emitted.data (e : Emitted) : List Byte := (List.range e.dataLength.toNat).map e.dataPtr

/-- The members of `xgmii2tlm_bridge`, with what it sent on. -/
structure State where
  buf : ℕ → Byte := fun _ => 0
  len : BitVec 32 := 0
  sofFound : Bool := false
  preamble55Found : Bool := false
  preambleD5Found : Bool := false
  out : List Emitted := []
  /-- There was a store behind the end of `buf`. -/
  outside : Bool := false

namespace State

variable (s : State)

/-- `reset`. -/
def reset : State := { s with len := 0, sofFound := false, preamble55Found := false, preambleD5Found := false }

/-- `buf[len++] = data`. -/
def store (data : Byte) : State :=
  { s with
    buf := Function.update s.buf s.len.toNat data
    len := s.len + 1
    outside := s.outside || decide (bufSize ≤ s.len.toNat) }

/-- The payload of `len - 4` bytes is sent on. -/
def emit : State := { s with out := s.out ++ [⟨s.buf, s.len - 4⟩] }

/-- `process_byte` for a control code. -/
def processCtrl (data : Byte) : State :=
  if data = 0xfb then { s with sofFound := true, preamble55Found := false, preambleD5Found := false, len := 0 }
  else if data = 0xfe then s.reset
  else if data = 0xfd then if s.preambleD5Found = false then s.reset else s.emit.reset
  else s

/-- `process_byte` for data, before it looks for an overrun. -/
def gather (data : Byte) : State :=
  if s.sofFound = true then
    if s.preambleD5Found = true then s.store data
    else if s.preamble55Found = true then if data = 0xd5 then { s with preambleD5Found := true } else s
    else if data = 0x55 then { s with preamble55Found := true } else s
  else s

/-- "XGMII overrun!" -/
def checkOverrun : State := if s.len.toNat = bufSize then s.reset else s

/-- `process_byte`. -/
def processByte (lane : Byte × Bool) : State :=
  if lane.2 = true then s.processCtrl lane.1 else (s.gather lane.1).checkOverrun

/-- All lanes carry packet data. -/
def fast (m : Mode) (f : Flit) : Bool := decide (m = .mode10G) && s.preambleD5Found && decide (f.xxc = 0)

/-- The `memcpy` of the fast path. -/
def storeFlit (f : Flit) : State :=
  { s with
    buf := fun i => if s.len.toNat ≤ i ∧ i < s.len.toNat + 8 then (f.lane (i - s.len.toNat)).1 else s.buf i
    len := s.len + 8
    outside := s.outside || decide (bufSize < s.len.toNat + 8) }

end State

/-- The lanes of a flit that the mode has. -/
def Flit.laneList (m : Mode) (f : Flit) : List (Byte × Bool) := (List.range (lanes m)).map f.lane

/-- `process`, at one edge. -/
def process (m : Mode) (s : State) (f : Flit) : State :=
  if s.fast m f = true then s.storeFlit f else (f.laneList m).foldl State.processByte s

/-- A sequence of flits. -/
def feed (m : Mode) (fs : List Flit) (s : State) : State := fs.foldl (process m) s

end LibSystemCTLM.Xgmii
