import LibSystemCTLM.Ccix.CxsCntl
import LibSystemCTLM.Foundation.Words
import Mathlib.Logic.Relation

/-!
# TLPs in flits

A TLP is sent as the data of flits (`TLP::CreateFlit`): several TLPs in one flit, each from a
place that is 128 bit aligned, or one TLP over several flits, from the beginning of each. The
receiver has an assembler for each start in a control word, gives each end to the first assembler
that has none, and collects the data in words of 32 bits (`RxLink::processRxCntl`,
`RxLink::processRxData`).

## The model

A flit is its bytes; positions in it are counted in bits, as in the source. A TLP is a list of whole
words (`TLP`), which is done when its position is behind its last byte. A packer calls
`CreateFlit` for one TLP after the other (`Fills`) and sends a flit (`Packed`): where it does so is
left open. A control word is cut to `CNTL_WIDTH` bits on its way.

What is received is what was packed if the pointers of every flit fit in its control word: that is
in the module behind this one.
-/

namespace LibSystemCTLM.Ccix.Cxs

open Foundation Relation

/-- The data of a flit, by bytes. -/
abbrev Flit := ℕ → BitVec 8

/-- `TLP`: `m_tlp` and `m_pos`. -/
structure TLP where
  tlp : List (BitVec 8)
  pos : ℕ
  pos_le : pos ≤ tlp.length
  /-- Words are put into it. -/
  words : 4 ∣ tlp.length
  nonempty : 0 < tlp.length

namespace TLP

/-- `m_tlpDone`, which is set when `m_pos` gets to the end. -/
def Done (t : TLP) : Prop := t.pos = t.tlp.length

instance (t : TLP) : Decidable t.Done := inferInstanceAs (Decidable (_ = _))

theorem lt_of_not_done {t : TLP} (h : ¬ t.Done) : t.pos < t.tlp.length := Nat.lt_of_le_of_ne t.pos_le h

/-- `Mark_EndPtr`: the last four bytes begin. -/
def MarkEndPtr (t : TLP) : Prop := t.pos = t.tlp.length - 4

instance (t : TLP) : Decidable t.MarkEndPtr := inferInstanceAs (Decidable (_ = _))

/-- `get_tlp_byte`. -/
def getTlpByte (t : TLP) (h : ¬ t.Done) : BitVec 8 × TLP :=
  (t.tlp.get ⟨t.pos, lt_of_not_done h⟩, { t with pos := t.pos + 1, pos_le := lt_of_not_done h })

end TLP

/-! ### `CreateFlit` -/

/-- What `CreateFlit` works on: `tmpFlit`, `flit_pos`, `cntl` and the TLP. -/
structure Filling where
  flit : Flit
  flitPos : ℕ
  cntl : CXSCntl
  tlp : TLP

namespace Filling

variable (cfg : Config)

/-- Zeros up to where a TLP may start. -/
def align : ℕ → Filling → Filling
  | 0, s => s
  | n + 1, s =>
    if s.flitPos < cfg.flitWidth ∧ s.flitPos % 128 ≠ 0 then
      align n { s with flit := Function.update s.flit (s.flitPos / 8) 0, flitPos := s.flitPos + 8 }
    else s

/-- One byte of the TLP. -/
def putByte (s : Filling) (h : ¬ s.tlp.Done) : Filling :=
  let cntl := if s.tlp.pos = 0 then s.cntl.addStartPtr s.flitPos else s.cntl
  { flit := Function.update s.flit (s.flitPos / 8) (s.tlp.getTlpByte h).1
    flitPos := s.flitPos + 8
    cntl := if s.tlp.MarkEndPtr then cntl.addEndPtr s.flitPos else cntl
    tlp := (s.tlp.getTlpByte h).2 }

/-- The bytes of the TLP, up to its end or that of the flit. -/
def fill : ℕ → Filling → Filling
  | 0, s => s
  | n + 1, s => if h : s.flitPos < cfg.flitWidth ∧ ¬ s.tlp.Done then fill n (s.putByte h.2) else s

end Filling

/-- `CreateFlit`. -/
def createFlit (cfg : Config) (t : TLP) (flit : Flit) (flitPos : ℕ) (cntl : CXSCntl) : Filling :=
  Filling.fill cfg cfg.flitWidth (if t.pos = 0 then Filling.align cfg cfg.flitWidth ⟨flit, flitPos, cntl, t⟩ else ⟨flit, flitPos, cntl, t⟩)

/-! ### The receiver -/

/-- `TLPAssembler`: `m_startPtr`, `m_endPtr` if it has one, and `m_data`. -/
structure Assembler where
  startPtr : ℕ
  endPtr : Option ℕ := none
  data : List (BitVec 8) := []

/-- `PushBack`. -/
def Assembler.pushBack (a : Assembler) (v : BitVec 32) : Assembler :=
  { a with data := a.data ++ [v.setWidth 8, (v >>> 8).setWidth 8, (v >>> 16).setWidth 8, (v >>> 24).setWidth 8] }

/-- `RxLink`: `m_assemblers`, and the data of the TLPs that were assembled. -/
structure Rx where
  assemblers : List Assembler := []
  received : List (List (BitVec 8)) := []

/-- The ends are given to the assemblers in order. There must be one for each. -/
def assignEnds : List Assembler → List (BitVec 32) → Option (List Assembler)
  | as, [] => some as
  | [], _ :: _ => none
  | a :: as, p :: ps => (assignEnds as ps).map ({ a with endPtr := some (p.toNat * 32) } :: ·)

/-- `processRxCntl`. -/
def processRxCntl (c : CXSCntl) (as : List Assembler) : Option (List Assembler) :=
  assignEnds (as ++ c.startPtrs.map fun p => { startPtr := p.toNat * 128 }) c.endPtrs

/-- The word of a flit at a position. -/
def flitWord (flit : Flit) (flitPos : ℕ) : BitVec 32 :=
  word32 (flit (flitPos / 8 + 3)) (flit (flitPos / 8 + 2)) (flit (flitPos / 8 + 1)) (flit (flitPos / 8))

/-- What `processRxData` does with one word. -/
def rxWord (flit : Flit) (flitPos : ℕ) (rx : Rx) : Rx :=
  match rx.assemblers with
  | [] => rx
  | a :: as =>
    if a.startPtr ≤ flitPos then
      let a := a.pushBack (flitWord flit flitPos)
      if a.endPtr = some flitPos then { assemblers := as, received := rx.received ++ [a.data] } else { rx with assemblers := a :: as }
    else rx

/-- The words of a flit, `n` from a position on. -/
def rxWords (flit : Flit) : ℕ → ℕ → Rx → Rx
  | 0, _, rx => rx
  | n + 1, flitPos, rx => rxWords flit n (flitPos + 32) (rxWord flit flitPos rx)

/-- `processRxData`. One assembler at most is left. -/
def processRxData (cfg : Config) (flit : Flit) (rx : Rx) : Option Rx :=
  let rx := rxWords flit (cfg.flitWidth / 32) 0 rx
  match rx.assemblers with
  | [] => some rx
  | [a] => some { rx with assemblers := [{ a with startPtr := 0 }] }
  | _ => none

/-- A flit is received, with its control word. -/
def receive (cfg : Config) (rx : Rx) (f : Flit × BitVec cfg.cntlWidth) : Option Rx := do
  let c ← CXSCntl.parseCntl cfg (f.2.setWidth 64)
  let as ← processRxCntl c rx.assemblers
  processRxData cfg f.1 { rx with assemblers := as }

/-! ### Packing -/

/-- A flit that is filled, the TLPs that are not done, and those that are. -/
structure Packer where
  flit : Flit
  flitPos : ℕ := 0
  cntl : CXSCntl := {}
  queue : List TLP
  done : List (List (BitVec 8))

/-- `CreateFlit` is called for the first TLP. -/
def Packer.create (cfg : Config) (p : Packer) (t : TLP) (q : List TLP) (flitPos : ℕ) : Packer :=
  let s := createFlit cfg t p.flit flitPos p.cntl
  if s.tlp.Done then { flit := s.flit, flitPos := s.flitPos, cntl := s.cntl, queue := q, done := p.done ++ [t.tlp] }
  else { p with flit := s.flit, flitPos := s.flitPos, cntl := s.cntl, queue := s.tlp :: q }

/-- A TLP is put into the flit, behind what is there. One that was begun in the flit before goes on at the beginning. The flit
holds at most `MAX_PKT_PER_FLIT` starts, and as many ends. -/
inductive Fills (cfg : Config) : Packer → Packer → Prop
  | create {p : Packer} {t : TLP} {q : List TLP} (n : ℕ) : p.queue = t :: q → p.flitPos ≤ 8 * n → 8 * n < cfg.flitWidth → (t.pos ≠ 0 → n = 0) →
      (p.create cfg t q (8 * n)).cntl.startPtrs.length ≤ cfg.maxPktPerFlit →
      (p.create cfg t q (8 * n)).cntl.endPtrs.length ≤ cfg.maxPktPerFlit → Fills cfg p (p.create cfg t q (8 * n))

/-- **The TLPs are packed into flits**: the flits, what is left of the TLPs, and those that are done. A TLP that is begun and not done
fills its flit. What the flit held before it is filled is left open. -/
inductive Packed (cfg : Config) (ts : List TLP) : List (Flit × CXSCntl) → List TLP → List (List (BitVec 8)) → Prop
  | nil : (∀ t ∈ ts, t.pos = 0) → Packed cfg ts [] ts []
  | flit {fs : List (Flit × CXSCntl)} {q : List TLP} {d : List (List (BitVec 8))} {f : Flit} {p : Packer} : Packed cfg ts fs q d →
      ReflTransGen (Fills cfg) { flit := f, queue := q, done := d } p → (∀ t ∈ p.queue.head?, t.pos ≠ 0 → cfg.flitWidth ≤ p.flitPos) →
      Packed cfg ts (fs ++ [(p.flit, p.cntl)]) p.queue p.done

/-- What is on the link: each flit with its control word, if it is defined. -/
def onLink (cfg : Config) (f : Flit × CXSCntl) : Option (Flit × BitVec cfg.cntlWidth) := do return (f.1, (← f.2.toUint64 cfg).setWidth cfg.cntlWidth)

/-- The flits are received in order. -/
def decode (cfg : Config) (fs : List (Flit × CXSCntl)) : Option Rx :=
  fs.foldlM (fun rx f => (onLink cfg f).bind (receive cfg rx)) {}

end LibSystemCTLM.Ccix.Cxs
