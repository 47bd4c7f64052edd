import LibSystemCTLM.Foundation.FirstMatch
import LibSystemCTLM.Foundation.Runs
import Mathlib.Data.BitVec

/-!
# The checker of snoop data

`checker_ace_cd_data` in `checker-ace.h` keeps the lines that a master has allocated: a read that is over adds one or takes it out, and
so do a write that is over and a snoop that is answered. A snoop of one of them is to be answered with data, and no other.

The ledger beside it knows the lines that the master may hold. The checker does not align the addresses, samples them in 32 bits,
looks neither at the response of a read nor whether a snoop is a DVM message. What it makes of a run is right exactly if
none of this matters (`runOk_lines_iff`): the address that it samples is that of the line, or neither of them is held.

## The model

The channels are looked at in the order of `Edge.transfers`, and a step is one transfer, or a reset. Reads and writes are
numbered, which is no variable of the source.

## Honest scope

The domains and `AxBAR` are not sampled. What the master may hold is told by the type of a transaction and its response: a line is held from the
end of a read that fills or makes it unique without an error, until the end of a `WriteBack`, `Evict`, `CleanInvalid` or `MakeInvalid`, or a snoop response
without `IsShared`.
-/

namespace LibSystemCTLM.Ace.CdDataChecker

open Foundation

/-- What the checker is configured with, and the size of the lines, which it does not use. -/
structure Config where
  maxDepth : ℕ
  cachelineSz : ℕ

/-! ### Transactions -/

/-- The signals of the read address channel that are sampled. -/
structure Ar (w : ℕ) where
  arid : BitVec w
  araddr : BitVec 64
  arsnoop : BitVec 4
  arprot : BitVec 3
  deriving DecidableEq

/-- Those of the write address channel. -/
structure Aw (w : ℕ) where
  awid : BitVec w
  awaddr : BitVec 64
  awsnoop : BitVec 3
  awprot : BitVec 3
  deriving DecidableEq

/-- Those of the snoop address channel. -/
structure Ac where
  acaddr : BitVec 64
  acsnoop : BitVec 4
  acprot : BitVec 3
  deriving DecidableEq

/-- `Address`. -/
structure Address where
  addr : BitVec 64
  nonSecure : Bool
  deriving DecidableEq

/-- `Transaction`, with its number. -/
structure Transaction where
  number : ℕ
  axID : BitVec 32
  addr : BitVec 64
  snoop : BitVec 8
  nonSecure : Bool
  isRead : Bool
  crresp : BitVec 8 := 0
  deriving DecidableEq

/-- `get_non_secure`. -/
def getNonSecure (prot : BitVec 3) : Bool := prot.getLsbD 1

/-- `to_uint` of an address. -/
def toUint (addr : BitVec 64) : BitVec 64 := (addr.setWidth 32).setWidth 64

namespace Transaction

variable (tr : Transaction)

def address : Address := ⟨tr.addr, tr.nonSecure⟩

def setCrresp (r : BitVec 8) : Transaction := { tr with crresp := r }

def hasDatatransfer : Bool := tr.crresp.getLsbD 0

def isShared : Bool := tr.crresp.getLsbD 3

/-- `AllocateCacheline`: `ReadClean`, `ReadNotSharedDirty`, `ReadShared`, `ReadUnique`, `CleanUnique` and `MakeUnique`. -/
def allocateCacheline : Bool := decide (tr.snoop ∈ [0x2, 0x3, 0x1, 0x7, 0xb, 0xc])

/-- `EvictCacheline`: `CleanInvalid` and `MakeInvalid` of the reads, `WriteBack` and `Evict` of the writes. -/
def evictCacheline : Bool := if tr.isRead = true then decide (tr.snoop ∈ [0x9, 0xd]) else decide (tr.snoop ∈ [0x3, 0x4])

/-- `MustHaveData`: `ReadOnce`, `ReadShared`, `ReadClean`, `ReadNotSharedDirty` and `ReadUnique`. -/
def mustHaveData : Bool := decide (tr.snoop ∈ [0x0, 0x1, 0x2, 0x3, 0x7])

end Transaction

variable {w : ℕ}

/-- `SampleARSignals`. -/
def Ar.sample (a : Ar w) (number : ℕ) : Transaction where
  number := number
  axID := a.arid.setWidth 32
  addr := toUint a.araddr
  snoop := a.arsnoop.setWidth 8
  nonSecure := getNonSecure a.arprot
  isRead := true

/-- `SampleAWSignals`. -/
def Aw.sample (a : Aw w) (number : ℕ) : Transaction where
  number := number
  axID := a.awid.setWidth 32
  addr := toUint a.awaddr
  snoop := a.awsnoop.setWidth 8
  nonSecure := getNonSecure a.awprot
  isRead := false

/-- `SampleACChannel`. -/
def Ac.sample (a : Ac) : Transaction where
  number := 0
  axID := 0
  addr := toUint a.acaddr
  snoop := a.acsnoop.setWidth 8
  nonSecure := getNonSecure a.acprot
  isRead := false

/-- A transfer of one of the channels. -/
inductive Transfer (w : ℕ) where
  | ar (a : Ar w)
  | r (rid : BitVec w) (rresp : BitVec 4) (rlast : Bool)
  | aw (a : Aw w)
  | b (bid : BitVec w)
  | ac (a : Ac)
  | cr (crresp : BitVec 5)
  deriving DecidableEq

/-- The transfers of the channels at a clock edge. -/
structure Edge (w : ℕ) where
  ar : Option (Ar w) := none
  r : Option (BitVec w × BitVec 4 × Bool) := none
  aw : Option (Aw w) := none
  b : Option (BitVec w) := none
  ac : Option Ac := none
  cr : Option (BitVec 5) := none

/-- The transfers of an edge, in the order in which they are looked at. -/
def Edge.transfers (e : Edge w) : List (Transfer w) :=
  (e.ar.map .ar).toList ++ (e.r.map fun r => .r r.1 r.2.1 r.2.2).toList ++ (e.aw.map .aw).toList ++ (e.b.map .b).toList ++
    (e.ac.map .ac).toList ++ (e.cr.map .cr).toList

/-! ### The checker -/

/-- What is reported. -/
inductive Report where
  /-- "snoop transaction: .. without data (cache line should have been cached))" -/
  | withoutData
  /-- "snoop transaction: unexpected data (cache line should not have been in cache), .." -/
  | unexpectedData
  /-- "Maximum outstanding transactions reached" -/
  | maximum
  deriving DecidableEq

/-- `m_allocated` and the lists, and the reads and writes since the last reset. -/
structure Checker where
  allocated : List Address := []
  rtList : List Transaction := []
  wtList : List Transaction := []
  crList : List Transaction := []
  reads : ℕ := 0
  writes : ℕ := 0
  deriving DecidableEq

/-- `GetFirst`. -/
def getFirst (l : List Transaction) (id : BitVec 32) : Option Transaction := l.find? fun t => decide (t.axID = id)

namespace Checker

variable (c : Config) (s : Checker)

/-- `std::list::remove`. -/
def remove (a : Address) : List Address := s.allocated.filter fun b => decide (b ≠ a)

/-- `process_rchannel`. -/
def processRchannel (tr : Transaction) : List Address :=
  if tr.allocateCacheline = true ∧ tr.address ∉ s.allocated then s.allocated ++ [tr.address]
  else if tr.evictCacheline = true ∧ tr.address ∈ s.allocated then s.remove tr.address
  else s.allocated

/-- `process_bchannel`. -/
def processBchannel (tr : Transaction) : List Address :=
  if tr.evictCacheline = true then if tr.address ∈ s.allocated then s.remove tr.address else s.allocated else s.allocated

/-- `process_crchannel`. -/
def processCrchannel (tr : Transaction) : List Address :=
  if tr.isShared = false then if tr.address ∈ s.allocated then s.remove tr.address else s.allocated else s.allocated

/-- `check_crresp`. -/
def checkCrresp (tr : Transaction) : List Report :=
  if tr.address ∈ s.allocated ∧ tr.mustHaveData = true ∧ tr.hasDatatransfer = false then [.withoutData]
  else if tr.address ∉ s.allocated ∧ tr.hasDatatransfer = true then [.unexpectedData]
  else []

def ar (a : Ar w) : Checker × List Report :=
  if s.rtList.length < c.maxDepth then ({ s with rtList := s.rtList ++ [a.sample s.reads], reads := s.reads + 1 }, [])
  else ({ s with reads := s.reads + 1 }, [.maximum])

def r (rid : BitVec w) (rlast : Bool) : Checker × List Report :=
  match getFirst s.rtList (rid.setWidth 32) with
  | some rt =>
    if rlast = true then
      ({ s with
          allocated := s.processRchannel rt
          rtList := updateFirst (fun t => decide (t.axID = rid.setWidth 32)) (fun _ => none) s.rtList }, [])
    else (s, [])
  | none => (s, [])

def aw (a : Aw w) : Checker × List Report :=
  if s.wtList.length < c.maxDepth then ({ s with wtList := s.wtList ++ [a.sample s.writes], writes := s.writes + 1 }, [])
  else ({ s with writes := s.writes + 1 }, [.maximum])

def b (bid : BitVec w) : Checker × List Report :=
  match getFirst s.wtList (bid.setWidth 32) with
  | some wt =>
    ({ s with
        allocated := s.processBchannel wt
        wtList := updateFirst (fun t => decide (t.axID = bid.setWidth 32)) (fun _ => none) s.wtList }, [])
  | none => (s, [])

def ac (a : Ac) : Checker × List Report :=
  if s.crList.length < c.maxDepth then ({ s with crList := s.crList ++ [a.sample] }, []) else (s, [.maximum])

def cr (crresp : BitVec 5) : Checker × List Report :=
  match s.crList with
  | [] => (s, [])
  | tr :: rest =>
    let tr := tr.setCrresp (crresp.setWidth 8)
    ({ s with allocated := s.processCrchannel tr, crList := rest }, s.checkCrresp tr)

/-- What a transfer does, and what is reported of it. -/
def step : Transfer w → Checker × List Report
  | .ar a => s.ar c a
  | .r rid _ rlast => s.r rid rlast
  | .aw a => s.aw c a
  | .b bid => s.b bid
  | .ac a => s.ac c a
  | .cr crresp => s.cr crresp

end Checker

/-! ### What there is to be found -/

/-- The address of the line that an address is in. -/
def lineAddress (c : Config) (addr : BitVec 64) : BitVec 64 := BitVec.ofNat 64 (addr.toNat / c.cachelineSz * c.cachelineSz)

/-- What a transaction does to a line that the master may hold. -/
inductive Effect where
  | fill | drop | keep
  deriving DecidableEq

/-- A read that is over. An error fills no line. -/
def Ar.effect (a : Ar w) (error : Bool) : Effect :=
  if a.arsnoop ∈ [0x1, 0x2, 0x3, 0x7, 0xb, 0xc] then if error = true then .keep else .fill
  else if a.arsnoop ∈ [0x9, 0xd] then .drop
  else .keep

/-- A write that is over. -/
def Aw.effect (a : Aw w) : Effect := if a.awsnoop ∈ [0x3, 0x4] then .drop else .keep

/-- `DVMComplete` and `DVMMessage`, which are of no line. -/
def Ac.isDVM (a : Ac) : Bool := decide (a.acsnoop ∈ [0xe, 0xf])

/-- A snoop that is answered. -/
def Ac.effect (a : Ac) (isShared : Bool) : Effect := if a.isDVM || isShared then .keep else .drop

/-- A read or a write that is not over, with whether one of its beats had an error. -/
structure Pending (α : Type) where
  number : ℕ
  signals : α
  error : Bool := false
  deriving DecidableEq

/-- The reads, writes and snoops that are not over, and the lines that the master may hold. -/
structure Ledger (w : ℕ) where
  held : List Address := []
  pendingReads : List (Pending (Ar w)) := []
  pendingWrites : List (Pending (Aw w)) := []
  snoops : List Ac := []
  reads : ℕ := 0
  writes : ℕ := 0
  deriving DecidableEq

def Ar.line (c : Config) (a : Ar w) : Address := ⟨lineAddress c a.araddr, getNonSecure a.arprot⟩

def Aw.line (c : Config) (a : Aw w) : Address := ⟨lineAddress c a.awaddr, getNonSecure a.awprot⟩

def Ac.line (c : Config) (a : Ac) : Address := ⟨lineAddress c a.acaddr, getNonSecure a.acprot⟩

/-- The addresses that are sampled of them. -/
def Ar.address (a : Ar w) : Address := ⟨toUint a.araddr, getNonSecure a.arprot⟩

def Aw.address (a : Aw w) : Address := ⟨toUint a.awaddr, getNonSecure a.awprot⟩

def Ac.address (a : Ac) : Address := ⟨toUint a.acaddr, getNonSecure a.acprot⟩

/-- The lines that are held after an effect. -/
def Effect.apply (held : List Address) (line : Address) : Effect → List Address
  | .fill => line :: held
  | .drop => held.filter fun a => decide (a ≠ line)
  | .keep => held

namespace Ledger

variable (c : Config) (l : Ledger w)

/-- The read that a beat is of. -/
def dueRead (rid : BitVec w) : Option (Pending (Ar w)) := l.pendingReads.find? fun p => decide (p.signals.arid = rid)

/-- The write that a response is of. -/
def dueWrite (bid : BitVec w) : Option (Pending (Aw w)) := l.pendingWrites.find? fun p => decide (p.signals.awid = bid)

/-- An error of a beat, `SLVERR` or `DECERR`. -/
def isError (rresp : BitVec 4) : Bool := rresp.getLsbD 1

/-- A beat. With the last one the read is over. -/
def r (rid : BitVec w) (rresp : BitVec 4) (rlast : Bool) : Ledger w :=
  match l.dueRead rid with
  | some p =>
    let after := fun q : Pending (Ar w) => if rlast = true then none else some { q with error := q.error || isError rresp }
    { l with
      held := if rlast = true then (p.signals.effect (p.error || isError rresp)).apply l.held (p.signals.line c) else l.held
      pendingReads := updateFirst (fun p => decide (p.signals.arid = rid)) after l.pendingReads }
  | none => l

/-- A response to a write. -/
def b (bid : BitVec w) : Ledger w :=
  match l.dueWrite bid with
  | some p =>
    { l with
      held := p.signals.effect.apply l.held (p.signals.line c)
      pendingWrites := updateFirst (fun p => decide (p.signals.awid = bid)) (fun _ => none) l.pendingWrites }
  | none => l

/-- A snoop response. -/
def cr (crresp : BitVec 5) : Ledger w :=
  match l.snoops with
  | [] => l
  | a :: rest => { l with held := (a.effect (crresp.getLsbD 3)).apply l.held (a.line c), snoops := rest }

/-- What a transfer adds. -/
def step : Transfer w → Ledger w
  | .ar a => { l with pendingReads := l.pendingReads ++ [{ number := l.reads, signals := a }], reads := l.reads + 1 }
  | .r rid rresp rlast => l.r c rid rresp rlast
  | .aw a => { l with pendingWrites := l.pendingWrites ++ [{ number := l.writes, signals := a }], writes := l.writes + 1 }
  | .b bid => l.b c bid
  | .ac a => { l with snoops := l.snoops ++ [a] }
  | .cr crresp => l.cr c crresp

/-- The read that is found by the low 32 bits of its ID, and the write. -/
def foundRead (rid : BitVec w) : Option (Pending (Ar w)) :=
  l.pendingReads.find? fun p => decide (p.signals.arid.setWidth 32 = rid.setWidth 32)

def foundWrite (bid : BitVec w) : Option (Pending (Aw w)) :=
  l.pendingWrites.find? fun p => decide (p.signals.awid.setWidth 32 = bid.setWidth 32)

/-- A snoop is answered with data exactly if its line is held, and a DVM message without. -/
def Answered (a : Ac) (data : Bool) : Prop := if a.isDVM = true then data = false else (a.line c ∈ l.held ↔ data = true)

end Ledger

/-- What is done to the address that is sampled does to the lines that are held what is to be done to the line. -/
def Matches (held : List Address) (effect sampled : Effect) (line addr : Address) : Prop :=
  match effect, sampled with
  | .fill, .fill => addr = line ∨ addr ∈ held ∧ line ∈ held
  | .drop, .drop => addr = line ∨ addr ∉ held ∧ line ∉ held
  | .keep, .keep => True
  | .fill, .drop => line ∈ held ∧ addr ∉ held
  | .drop, .fill => line ∉ held ∧ addr ∈ held
  | .fill, .keep => line ∈ held
  | .drop, .keep => line ∉ held
  | .keep, .fill => addr ∈ held
  | .keep, .drop => addr ∉ held

/-- What the checker takes a snoop to do. -/
def sampledEffect (isShared : Bool) : Effect := if isShared = true then .keep else .drop

/-- What is asked of a transfer. -/
def Ledger.Clear (c : Config) (l : Ledger w) : Transfer w → Prop
  | .ar _ => l.pendingReads.length < c.maxDepth
  | .r rid rresp rlast =>
    rlast = true →
      l.foundRead rid = l.dueRead rid ∧
        ∀ p ∈ l.dueRead rid,
          Matches l.held (p.signals.effect (p.error || Ledger.isError rresp)) (p.signals.effect false) (p.signals.line c) p.signals.address
  | .aw _ => l.pendingWrites.length < c.maxDepth
  | .b bid =>
    l.foundWrite bid = l.dueWrite bid ∧
      ∀ p ∈ l.dueWrite bid, Matches l.held p.signals.effect p.signals.effect (p.signals.line c) p.signals.address
  | .ac _ => l.snoops.length < c.maxDepth
  | .cr crresp =>
    ∀ a ∈ l.snoops.head?,
      (a.isDVM = false →
        (a.line c ∈ l.held → crresp.getLsbD 0 = true → a.address ∈ l.held) ∧
          (a.line c ∉ l.held → crresp.getLsbD 0 = false → a.sample.mustHaveData = true → a.address ∉ l.held)) ∧
        Matches l.held (a.effect (crresp.getLsbD 3)) (sampledEffect (crresp.getLsbD 3)) (a.line c) a.address

/-! ### What is held after a transfer -/

namespace Effect

variable {held held' : List Address} {effect sampled : Effect} {line addr x : Address}

@[simp] theorem mem_apply_fill : x ∈ apply held line .fill ↔ x = line ∨ x ∈ held := List.mem_cons

@[simp] theorem mem_apply_drop : x ∈ apply held line .drop ↔ x ∈ held ∧ x ≠ line := by simp [apply]

@[simp] theorem apply_keep : apply held line .keep = held := rfl

/-- What is held counts, and not its order. -/
theorem mem_apply_congr (h : ∀ x, x ∈ held ↔ x ∈ held') : x ∈ apply held line effect ↔ x ∈ apply held' line effect := by
  cases effect with
  | fill => rw [mem_apply_fill, mem_apply_fill, h]
  | drop => rw [mem_apply_drop, mem_apply_drop, h]
  | keep => exact h x

/-- The same is held after both of them exactly if they match. -/
theorem forall_mem_apply_iff : (∀ x, x ∈ apply held addr sampled ↔ x ∈ apply held line effect) ↔ Matches held effect sampled line addr := by
  cases effect with
  | fill =>
    cases sampled with
    | fill =>
      simp only [mem_apply_fill]
      constructor
      · intro h
        by_cases hne : addr = line
        · exact .inl hne
        · exact .inr ⟨((h addr).1 (.inl rfl)).resolve_left hne, ((h line).2 (.inl rfl)).resolve_left (Ne.symm hne)⟩
      · rintro (rfl | ⟨haddr, hline⟩) x
        · exact Iff.rfl
        · exact or_congr_left' fun hx => iff_of_false (fun he => hx (he ▸ haddr)) fun he => hx (he ▸ hline)
    | drop =>
      simp only [mem_apply_fill, mem_apply_drop]
      constructor
      · intro h
        exact ⟨((h line).2 (.inl rfl)).1, fun haddr => ((h addr).2 (.inr haddr)).2 rfl⟩
      · rintro ⟨hline, haddr⟩ x
        constructor
        · exact fun hx => .inr hx.1
        · rintro (rfl | hx)
          · exact ⟨hline, fun he => haddr (he ▸ hline)⟩
          · exact ⟨hx, fun he => haddr (he ▸ hx)⟩
    | keep =>
      simp only [mem_apply_fill, apply_keep]
      exact ⟨fun h => (h line).2 (.inl rfl), fun hline x => ⟨.inr, fun hx => hx.elim (fun he => he ▸ hline) id⟩⟩
  | drop =>
    cases sampled with
    | fill =>
      simp only [mem_apply_fill, mem_apply_drop]
      constructor
      · intro h
        exact ⟨fun hline => ((h line).1 (.inr hline)).2 rfl, ((h addr).1 (.inl rfl)).1⟩
      · rintro ⟨hline, haddr⟩ x
        constructor
        · rintro (rfl | hx)
          · exact ⟨haddr, fun he => hline (he ▸ haddr)⟩
          · exact ⟨hx, fun he => hline (he ▸ hx)⟩
        · exact fun hx => .inr hx.1
    | drop =>
      simp only [mem_apply_drop]
      constructor
      · intro h
        by_cases hne : addr = line
        · exact .inl hne
        · exact .inr ⟨fun haddr => ((h addr).2 ⟨haddr, hne⟩).2 rfl, fun hline => ((h line).1 ⟨hline, Ne.symm hne⟩).2 rfl⟩
      · rintro (rfl | ⟨haddr, hline⟩) x
        · exact Iff.rfl
        · exact and_congr_right fun hx => iff_of_true (fun he => haddr (he ▸ hx)) fun he => hline (he ▸ hx)
    | keep =>
      simp only [mem_apply_drop, apply_keep]
      exact ⟨fun h hline => ((h line).1 hline).2 rfl, fun hline x => ⟨fun hx => ⟨hx, fun he => hline (he ▸ hx)⟩, And.left⟩⟩
  | keep =>
    cases sampled with
    | fill =>
      simp only [mem_apply_fill, apply_keep]
      exact ⟨fun h => (h addr).1 (.inl rfl), fun haddr x => ⟨fun hx => hx.elim (fun he => he ▸ haddr) id, .inr⟩⟩
    | drop =>
      simp only [mem_apply_drop, apply_keep]
      exact ⟨fun h haddr => ((h addr).2 haddr).2 rfl, fun haddr x => ⟨And.left, fun hx => ⟨hx, fun he => haddr (he ▸ hx)⟩⟩⟩
    | keep => exact iff_of_true (fun _ => Iff.rfl) trivial

end Effect

/-- What the checker takes a read and a write that are over to do. -/
def Transaction.readEffect (tr : Transaction) : Effect := if tr.allocateCacheline = true then .fill else if tr.evictCacheline = true then .drop else .keep

def Transaction.writeEffect (tr : Transaction) : Effect := if tr.evictCacheline = true then .drop else .keep

namespace Checker

variable {s : Checker} {tr : Transaction} {x : Address}

theorem remove_eq (a : Address) : s.remove a = Effect.apply s.allocated a .drop := rfl

/-- A line that is not there is not taken out. -/
theorem apply_drop_of_notMem {held : List Address} {a : Address} (h : a ∉ held) : Effect.apply held a .drop = held :=
  List.filter_eq_self.2 fun _ hb => decide_eq_true fun he => h (he ▸ hb)

theorem evictCacheline_of_allocate (hread : tr.isRead = true) (hfill : tr.allocateCacheline = true) : tr.evictCacheline = false := by
  unfold Transaction.evictCacheline
  rw [if_pos hread, decide_eq_false_iff_not]
  intro hevict
  simp only [Transaction.allocateCacheline, decide_eq_true_eq] at hfill
  simp only [List.mem_cons, List.not_mem_nil, or_false] at hevict
  rcases hevict with h | h <;> rw [h] at hfill <;> revert hfill <;> decide

theorem mem_processRchannel (hread : tr.isRead = true) : x ∈ s.processRchannel tr ↔ x ∈ tr.readEffect.apply s.allocated tr.address := by
  unfold processRchannel Transaction.readEffect
  by_cases hfill : tr.allocateCacheline = true
  · rw [if_pos hfill]
    by_cases hmem : tr.address ∈ s.allocated
    · rw [if_neg fun h => h.2 hmem, if_neg (by simp [evictCacheline_of_allocate hread hfill]), Effect.mem_apply_fill]
      exact ⟨.inr, fun hx => hx.elim (fun he => he ▸ hmem) id⟩
    · rw [if_pos ⟨hfill, hmem⟩, List.mem_append, List.mem_singleton, or_comm]
      exact Effect.mem_apply_fill.symm
  · rw [if_neg fun h => hfill h.1, if_neg hfill]
    by_cases hevict : tr.evictCacheline = true
    · rw [if_pos hevict]
      by_cases hmem : tr.address ∈ s.allocated
      · rw [if_pos ⟨hevict, hmem⟩, remove_eq]
      · rw [if_neg fun h => hmem h.2, apply_drop_of_notMem hmem]
    · rw [if_neg fun h => hevict h.1, if_neg hevict, Effect.apply_keep]

theorem processBchannel_eq : s.processBchannel tr = tr.writeEffect.apply s.allocated tr.address := by
  unfold processBchannel Transaction.writeEffect
  split
  · split
    · exact remove_eq _
    · rename_i hmem
      exact (apply_drop_of_notMem hmem).symm
  · rfl

theorem processCrchannel_eq : s.processCrchannel tr = (sampledEffect tr.isShared).apply s.allocated tr.address := by
  unfold processCrchannel sampledEffect
  cases tr.isShared with
  | false =>
    rw [if_pos rfl, if_neg Bool.false_ne_true]
    split
    · exact remove_eq _
    · rename_i hmem
      exact (apply_drop_of_notMem hmem).symm
  | true => rfl

/-- Nothing is reported of data that comes of a line that is there, and not of one that is not. -/
theorem checkCrresp_eq_nil :
    s.checkCrresp tr = [] ↔
      (tr.hasDatatransfer = true → tr.address ∈ s.allocated) ∧
        (tr.hasDatatransfer = false → tr.mustHaveData = true → tr.address ∉ s.allocated) := by
  unfold checkCrresp
  cases tr.hasDatatransfer with
  | true => by_cases hmem : tr.address ∈ s.allocated <;> simp [hmem]
  | false => by_cases hmem : tr.address ∈ s.allocated <;> cases tr.mustHaveData <;> simp [hmem]

end Checker

/-- An effect is that of the signals that were sampled. -/
theorem readEffect_sample (a : Ar w) (number : ℕ) : (a.sample number).readEffect = a.effect false := by
  have hbits : ∀ x : BitVec 4,
      (x.setWidth 8 ∈ [0x2, 0x3, 0x1, 0x7, 0xb, 0xc] ↔ x ∈ [0x1, 0x2, 0x3, 0x7, 0xb, 0xc]) ∧ (x.setWidth 8 ∈ [0x9, 0xd] ↔ x ∈ [0x9, 0xd]) := by
    decide
  unfold Transaction.readEffect Ar.effect Transaction.allocateCacheline Transaction.evictCacheline
  simp only [Ar.sample, hbits, decide_eq_true_eq, if_true, Bool.false_eq_true, if_false]

theorem writeEffect_sample (a : Aw w) (number : ℕ) : (a.sample number).writeEffect = a.effect := by
  have hbits : ∀ x : BitVec 3, x.setWidth 8 ∈ [0x3, 0x4] ↔ x ∈ [0x3, 0x4] := by decide
  unfold Transaction.writeEffect Aw.effect Transaction.evictCacheline
  simp only [Aw.sample, hbits, decide_eq_true_eq, Bool.false_eq_true, if_false]

/-! ### The lists of the ledger -/

/-- The numbers are those that were given to the transactions of a list. -/
structure Numbered {α : Type} (ps : List (Pending α)) (n : ℕ) : Prop where
  nodup : (ps.map Pending.number).Nodup
  lt : ∀ p ∈ ps, p.number < n

namespace Numbered

variable {α : Type} {ps : List (Pending α)} {n : ℕ}

theorem init : Numbered ([] : List (Pending α)) 0 := ⟨List.nodup_nil, nofun⟩

theorem push (h : Numbered ps n) (signals : α) : Numbered (ps ++ [{ number := n, signals := signals }]) (n + 1) := by
  constructor
  · rw [List.map_append]
    refine h.nodup.append (List.nodup_singleton _) (List.disjoint_singleton.2 fun hmem => ?_)
    obtain ⟨p, hp, hnum⟩ := List.mem_map.1 hmem
    exact (h.lt p hp).ne hnum
  · intro p hp
    rcases List.mem_append.1 hp with hold | hnew
    · exact (h.lt p hold).trans (Nat.lt_succ_self n)
    · rw [List.mem_singleton.1 hnew]
      exact Nat.lt_succ_self n

theorem update (h : Numbered ps n) {q : Pending α → Bool} {f : Pending α → Option (Pending α)} (hf : ∀ p, ∀ p' ∈ f p, p'.number = p.number) :
    Numbered (updateFirst q f ps) n := by
  have hsub : ((updateFirst q f ps).map Pending.number).Sublist (ps.map Pending.number) := map_updateFirst_sublist hf
  constructor
  · exact h.nodup.sublist hsub
  · intro p hp
    obtain ⟨p', hp', hnum⟩ := List.mem_map.1 (hsub.subset (List.mem_map_of_mem hp))
    exact hnum ▸ h.lt p' hp'

end Numbered

namespace Ledger

variable {c : Config} {l : Ledger w}

structure Wf (l : Ledger w) : Prop where
  reads : Numbered l.pendingReads l.reads
  writes : Numbered l.pendingWrites l.writes

theorem wf_init : ({} : Ledger w).Wf := ⟨.init, .init⟩

/-- A transfer gives a number to a transaction, or keeps it. -/
theorem wf_step (h : l.Wf) (t : Transfer w) : (l.step c t).Wf := by
  cases t with
  | ar a => exact ⟨h.reads.push a, h.writes⟩
  | r rid rresp rlast =>
    change (l.r c rid rresp rlast).Wf
    unfold Ledger.r
    split
    · refine ⟨h.reads.update fun p p' hp' => ?_, h.writes⟩
      cases rlast with
      | true => cases hp'
      | false =>
        obtain rfl : _ = p' := Option.some.inj hp'
        rfl
    · exact h
  | aw a => exact ⟨h.reads, h.writes.push a⟩
  | b bid =>
    change (l.b c bid).Wf
    unfold Ledger.b
    split
    · exact ⟨h.reads, h.writes.update (fun _ => nofun)⟩
    · exact h
  | ac a => exact ⟨h.reads, h.writes⟩
  | cr crresp =>
    change (l.cr c crresp).Wf
    unfold Ledger.cr
    split
    · exact h
    · exact ⟨h.reads, h.writes⟩

end Ledger

/-! ### The run -/

/-- The checker, and the ledger. -/
structure State (w : ℕ) where
  checker : Checker := {}
  ledger : Ledger w := {}
  deriving DecidableEq

/-- What the checker keeps of a read and a write. -/
def Pending.keptRead (p : Pending (Ar w)) : Transaction := p.signals.sample p.number

def Pending.keptWrite (p : Pending (Aw w)) : Transaction := p.signals.sample p.number

namespace State

variable (c : Config) (s : State w)

/-- A transfer, or without one a reset until it is released. -/
def step (s : State w) : Option (Transfer w) → Option (State w)
  | none => some {}
  | some t => some { checker := (s.checker.step c t).1, ledger := s.ledger.step c t }

/-- The transfers of the edges of a run, or without an edge a reset. -/
def transfers (es : List (Option (Edge w))) : List (Option (Transfer w)) :=
  es.flatMap fun e? => e?.elim [none] fun e => e.transfers.map some

/-- A transaction is over with its own response, and nothing is reported of a snoop that is answered as it should be. -/
def Right : Transfer w → Prop
  | .r rid _ rlast =>
    rlast = true → (getFirst s.checker.rtList (rid.setWidth 32)).map Transaction.number = (s.ledger.dueRead rid).map Pending.number
  | .b bid => (getFirst s.checker.wtList (bid.setWidth 32)).map Transaction.number = (s.ledger.dueWrite bid).map Pending.number
  | .cr crresp => ∀ a ∈ s.ledger.snoops.head?, s.ledger.Answered c a (crresp.getLsbD 0) → (s.checker.cr crresp).2 = []
  | _ => True

/-- **The lines that are allocated are those that the master may hold**, and the lists are what is not over. -/
structure Good : Prop where
  allocated : ∀ x, x ∈ s.checker.allocated ↔ x ∈ s.ledger.held
  rtList : s.checker.rtList = s.ledger.pendingReads.map Pending.keptRead
  wtList : s.checker.wtList = s.ledger.pendingWrites.map Pending.keptWrite
  crList : s.checker.crList = s.ledger.snoops.map Ac.sample
  reads : s.checker.reads = s.ledger.reads
  writes : s.checker.writes = s.ledger.writes

/-- What is made of a transfer is right. -/
def RightStep (t? : Option (Transfer w)) : Prop := (∀ t ∈ t?, s.Right c t) ∧ ∀ s', s.step c t? = some s' → s'.Good

def ClearStep (t? : Option (Transfer w)) : Prop := ∀ t ∈ t?, s.ledger.Clear c t

variable {c : Config} {s : State w}

/-- An address is kept if there is room for it. -/
theorem good_ar_iff (h : s.Good) (a : Ar w) :
    Good { checker := (s.checker.ar c a).1, ledger := s.ledger.step c (.ar a) } ↔ s.ledger.pendingReads.length < c.maxDepth := by
  have hlen : s.checker.rtList.length = s.ledger.pendingReads.length := by rw [h.rtList, List.length_map]
  rw [← hlen, Checker.ar]
  by_cases hroom : s.checker.rtList.length < c.maxDepth
  · rw [if_pos hroom]
    refine iff_of_true ⟨h.allocated, ?_, h.wtList, h.crList, congrArg (· + 1) h.reads, h.writes⟩ hroom
    simp [Ledger.step, h.rtList, h.reads, Pending.keptRead]
  · rw [if_neg hroom]
    refine iff_of_false (fun hgood => ?_) hroom
    have hnew := congrArg List.length hgood.rtList
    simp only [Ledger.step, List.length_map, List.length_append, List.length_singleton] at hnew
    omega

theorem good_aw_iff (h : s.Good) (a : Aw w) :
    Good { checker := (s.checker.aw c a).1, ledger := s.ledger.step c (.aw a) } ↔ s.ledger.pendingWrites.length < c.maxDepth := by
  have hlen : s.checker.wtList.length = s.ledger.pendingWrites.length := by rw [h.wtList, List.length_map]
  rw [← hlen, Checker.aw]
  by_cases hroom : s.checker.wtList.length < c.maxDepth
  · rw [if_pos hroom]
    refine iff_of_true ⟨h.allocated, h.rtList, ?_, h.crList, h.reads, congrArg (· + 1) h.writes⟩ hroom
    simp [Ledger.step, h.wtList, h.writes, Pending.keptWrite]
  · rw [if_neg hroom]
    refine iff_of_false (fun hgood => ?_) hroom
    have hnew := congrArg List.length hgood.wtList
    simp only [Ledger.step, List.length_map, List.length_append, List.length_singleton] at hnew
    omega

theorem good_ac_iff (h : s.Good) (a : Ac) :
    Good { checker := (s.checker.ac c a).1, ledger := s.ledger.step c (.ac a) } ↔ s.ledger.snoops.length < c.maxDepth := by
  have hlen : s.checker.crList.length = s.ledger.snoops.length := by rw [h.crList, List.length_map]
  rw [← hlen, Checker.ac]
  by_cases hroom : s.checker.crList.length < c.maxDepth
  · rw [if_pos hroom]
    refine iff_of_true ⟨h.allocated, h.rtList, h.wtList, ?_, h.reads, h.writes⟩ hroom
    simp [Ledger.step, h.crList]
  · rw [if_neg hroom]
    refine iff_of_false (fun hgood => ?_) hroom
    have hnew := congrArg List.length hgood.crList
    simp only [Ledger.step, List.length_map, List.length_append, List.length_singleton] at hnew
    omega

/-- What a beat and a response are taken for. -/
theorem getFirst_rtList (h : s.Good) (rid : BitVec w) :
    getFirst s.checker.rtList (rid.setWidth 32) = (s.ledger.foundRead rid).map Pending.keptRead := by
  rw [getFirst, h.rtList, List.find?_map]
  rfl

theorem getFirst_wtList (h : s.Good) (bid : BitVec w) :
    getFirst s.checker.wtList (bid.setWidth 32) = (s.ledger.foundWrite bid).map Pending.keptWrite := by
  rw [getFirst, h.wtList, List.find?_map]
  rfl

theorem right_r_iff (hwf : s.ledger.Wf) (h : s.Good) (rid : BitVec w) (rresp : BitVec 4) (rlast : Bool) :
    s.Right c (.r rid rresp rlast) ↔ (rlast = true → s.ledger.foundRead rid = s.ledger.dueRead rid) := by
  refine imp_congr_right fun _ => ?_
  rw [getFirst_rtList h, Option.map_map]
  exact (option_eq_iff_map_key hwf.reads.nodup (fun _ => List.mem_of_find?_eq_some) fun _ => List.mem_of_find?_eq_some).symm

theorem right_b_iff (hwf : s.ledger.Wf) (h : s.Good) (bid : BitVec w) :
    s.Right c (.b bid) ↔ s.ledger.foundWrite bid = s.ledger.dueWrite bid := by
  change (getFirst _ _).map Transaction.number = _ ↔ _
  rw [getFirst_wtList h, Option.map_map]
  exact (option_eq_iff_map_key hwf.writes.nodup (fun _ => List.mem_of_find?_eq_some) fun _ => List.mem_of_find?_eq_some).symm

theorem good_r_more (h : s.Good) (rid : BitVec w) (rresp : BitVec 4) :
    Good { checker := (s.checker.r rid false).1, ledger := s.ledger.r c rid rresp false } := by
  have hchecker : (s.checker.r rid false).1 = s.checker := by
    unfold Checker.r
    split <;> rfl
  rw [hchecker]
  unfold Ledger.r
  split
  · refine ⟨h.allocated, ?_, h.wtList, h.crList, h.reads, h.writes⟩
    exact h.rtList.trans (map_updateFirst_eq fun _ => rfl).symm
  · exact h

/-- With it the line is held, or not any more. -/
theorem good_r_last_iff (h : s.Good) {rid : BitVec w} {rresp : BitVec 4} (hfound : s.ledger.foundRead rid = s.ledger.dueRead rid) :
    Good { checker := (s.checker.r rid true).1, ledger := s.ledger.r c rid rresp true } ↔
      ∀ p ∈ s.ledger.dueRead rid,
        Matches s.ledger.held (p.signals.effect (p.error || Ledger.isError rresp)) (p.signals.effect false) (p.signals.line c)
          p.signals.address := by
  have hget := getFirst_rtList h rid
  rw [hfound] at hget
  unfold Checker.r Ledger.r
  rw [hget]
  cases hdue : s.ledger.dueRead rid with
  | none => exact iff_of_true h nofun
  | some p =>
    have hlist : updateFirst (fun t => decide (t.axID = rid.setWidth 32)) (fun _ => none) s.checker.rtList =
        (updateFirst (fun p => decide (p.signals.arid = rid)) (fun _ => none) s.ledger.pendingReads).map Pending.keptRead := by
      rw [h.rtList]
      exact updateFirst_none_map hfound
    have hheld : (∀ x, x ∈ s.checker.processRchannel p.keptRead ↔
          x ∈ (p.signals.effect (p.error || Ledger.isError rresp)).apply s.ledger.held (p.signals.line c)) ↔
        Matches s.ledger.held (p.signals.effect (p.error || Ledger.isError rresp)) (p.signals.effect false) (p.signals.line c)
          p.signals.address := by
      rw [← Effect.forall_mem_apply_iff]
      refine forall_congr' fun x => iff_congr ?_ Iff.rfl
      rw [Checker.mem_processRchannel rfl, Pending.keptRead, readEffect_sample]
      exact Effect.mem_apply_congr h.allocated
    simp only [Option.map_some, Option.mem_some_iff, forall_eq', if_true, ← hheld]
    exact ⟨Good.allocated, fun hx => ⟨hx, hlist, h.wtList, h.crList, h.reads, h.writes⟩⟩

theorem good_b_iff (h : s.Good) {bid : BitVec w} (hfound : s.ledger.foundWrite bid = s.ledger.dueWrite bid) :
    Good { checker := (s.checker.b bid).1, ledger := s.ledger.b c bid } ↔
      ∀ p ∈ s.ledger.dueWrite bid, Matches s.ledger.held p.signals.effect p.signals.effect (p.signals.line c) p.signals.address := by
  have hget := getFirst_wtList h bid
  rw [hfound] at hget
  unfold Checker.b Ledger.b
  rw [hget]
  cases hdue : s.ledger.dueWrite bid with
  | none => exact iff_of_true h nofun
  | some p =>
    have hlist : updateFirst (fun t => decide (t.axID = bid.setWidth 32)) (fun _ => none) s.checker.wtList =
        (updateFirst (fun p => decide (p.signals.awid = bid)) (fun _ => none) s.ledger.pendingWrites).map Pending.keptWrite := by
      rw [h.wtList]
      exact updateFirst_none_map hfound
    have hheld : (∀ x, x ∈ s.checker.processBchannel p.keptWrite ↔ x ∈ p.signals.effect.apply s.ledger.held (p.signals.line c)) ↔
        Matches s.ledger.held p.signals.effect p.signals.effect (p.signals.line c) p.signals.address := by
      rw [← Effect.forall_mem_apply_iff]
      refine forall_congr' fun x => iff_congr ?_ Iff.rfl
      rw [Checker.processBchannel_eq, Pending.keptWrite, writeEffect_sample]
      exact Effect.mem_apply_congr h.allocated
    simp only [Option.map_some, Option.mem_some_iff, forall_eq', ← hheld]
    exact ⟨Good.allocated, fun hx => ⟨hx, h.rtList, hlist, h.crList, h.reads, h.writes⟩⟩

/-- What is kept of the flags of a snoop response. -/
theorem flags_setCrresp (tr : Transaction) (crresp : BitVec 5) :
    (tr.setCrresp (crresp.setWidth 8)).hasDatatransfer = crresp.getLsbD 0 ∧ (tr.setCrresp (crresp.setWidth 8)).isShared = crresp.getLsbD 3 := by
  constructor
  · simp [Transaction.hasDatatransfer, Transaction.setCrresp]
  · simp [Transaction.isShared, Transaction.setCrresp]

/-- A DVM message without data is not reported. -/
theorem mustHaveData_of_isDVM {a : Ac} (h : a.isDVM = true) : a.sample.mustHaveData = false := by
  have hbits : ∀ x : BitVec 4, x ∈ [0xe, 0xf] → x.setWidth 8 ∉ [0x0, 0x1, 0x2, 0x3, 0x7] := by decide
  rw [Transaction.mustHaveData, decide_eq_false_iff_not]
  exact hbits a.acsnoop (of_decide_eq_true h)

/-- A snoop that is answered as it should be is reported nothing of exactly if the address that is sampled is held where the line is. -/
theorem right_cr_iff (h : s.Good) (crresp : BitVec 5) :
    s.Right c (.cr crresp) ↔
      ∀ a ∈ s.ledger.snoops.head?, a.isDVM = false →
        (a.line c ∈ s.ledger.held → crresp.getLsbD 0 = true → a.address ∈ s.ledger.held) ∧
          (a.line c ∉ s.ledger.held → crresp.getLsbD 0 = false → a.sample.mustHaveData = true → a.address ∉ s.ledger.held) := by
  refine forall_congr' fun a => imp_congr_right fun ha => ?_
  obtain ⟨rest, hsnoops⟩ : ∃ rest, s.ledger.snoops = a :: rest := List.head?_eq_some_iff.1 ha
  have hreports : (s.checker.cr crresp).2 = s.checker.checkCrresp (a.sample.setCrresp (crresp.setWidth 8)) := by
    rw [Checker.cr, h.crList, hsnoops, List.map_cons]
  have hdata := (flags_setCrresp a.sample crresp).1
  rw [hreports, Checker.checkCrresp_eq_nil, hdata, h.allocated]
  change _ → (_ → a.address ∈ s.ledger.held) ∧ (_ → a.sample.mustHaveData = true → a.address ∉ s.ledger.held) ↔ _
  unfold Ledger.Answered
  cases hdvm : a.isDVM with
  | true =>
    refine iff_of_true (fun hanswer => ?_) nofun
    rw [if_pos rfl] at hanswer
    rw [hanswer, mustHaveData_of_isDVM hdvm]
    exact ⟨nofun, fun _ => nofun⟩
  | false =>
    rw [if_neg Bool.false_ne_true]
    generalize crresp.getLsbD 0 = data
    by_cases hline : a.line c ∈ s.ledger.held <;> cases data <;> simp [hline]

theorem good_cr_iff (h : s.Good) (crresp : BitVec 5) :
    Good { checker := (s.checker.cr crresp).1, ledger := s.ledger.cr c crresp } ↔
      ∀ a ∈ s.ledger.snoops.head?,
        Matches s.ledger.held (a.effect (crresp.getLsbD 3)) (sampledEffect (crresp.getLsbD 3)) (a.line c) a.address := by
  unfold Checker.cr Ledger.cr
  rw [h.crList]
  cases hsnoops : s.ledger.snoops with
  | nil => exact iff_of_true h nofun
  | cons a rest =>
    have hheld : (∀ x, x ∈ s.checker.processCrchannel (a.sample.setCrresp (crresp.setWidth 8)) ↔
          x ∈ (a.effect (crresp.getLsbD 3)).apply s.ledger.held (a.line c)) ↔
        Matches s.ledger.held (a.effect (crresp.getLsbD 3)) (sampledEffect (crresp.getLsbD 3)) (a.line c) a.address := by
      rw [← Effect.forall_mem_apply_iff]
      refine forall_congr' fun x => iff_congr ?_ Iff.rfl
      rw [Checker.processCrchannel_eq, (flags_setCrresp a.sample crresp).2]
      exact Effect.mem_apply_congr h.allocated
    simp only [List.map_cons, List.head?_cons, Option.mem_some_iff, forall_eq', ← hheld]
    exact ⟨Good.allocated, fun hx => ⟨hx, h.rtList, h.wtList, rfl, h.reads, h.writes⟩⟩

/-- What is made of a transfer is right exactly if the transfer is clear. -/
theorem rightStep_iff (hwf : s.ledger.Wf) (h : s.Good) (t : Transfer w) : s.RightStep c (some t) ↔ s.ledger.Clear c t := by
  have hstep : s.RightStep c (some t) ↔ s.Right c t ∧ Good { checker := (s.checker.step c t).1, ledger := s.ledger.step c t } := by
    simp [RightStep, step]
  rw [hstep]
  cases t with
  | ar a => exact (and_iff_right trivial).trans (good_ar_iff h a)
  | r rid rresp rlast =>
    rw [right_r_iff hwf h]
    cases rlast with
    | false => exact iff_of_true ⟨nofun, good_r_more h rid rresp⟩ nofun
    | true =>
      constructor
      · rintro ⟨hfound, hgood⟩ -
        exact ⟨hfound rfl, (good_r_last_iff h (hfound rfl)).1 hgood⟩
      · intro hclear
        obtain ⟨hfound, hmatches⟩ := hclear rfl
        exact ⟨fun _ => hfound, (good_r_last_iff h hfound).2 hmatches⟩
  | aw a => exact (and_iff_right trivial).trans (good_aw_iff h a)
  | b bid =>
    rw [right_b_iff hwf h]
    exact and_congr_right fun hfound => good_b_iff h hfound
  | ac a => exact (and_iff_right trivial).trans (good_ac_iff h a)
  | cr crresp =>
    rw [right_cr_iff h]
    refine (and_congr_right fun _ => good_cr_iff h crresp).trans ?_
    exact ⟨fun hc a ha => ⟨hc.1 a ha, hc.2 a ha⟩, fun hc => ⟨fun a ha => (hc a ha).1, fun a ha => (hc a ha).2⟩⟩

theorem good_init : ({} : State w).Good := ⟨fun _ => Iff.rfl, rfl, rfl, rfl, rfl, rfl⟩

/-- **What is allocated is what the master may hold, and no right answer is reported, in the runs of which all transfers are clear.** -/
theorem runOk_lines_iff (c : Config) (es : List (Option (Edge w))) :
    RunOk (step c) (RightStep c) ({} : State w) (transfers es) ↔ RunOk (step c) (ClearStep c) ({} : State w) (transfers es) := by
  refine runOk_congr_of_ok (I := fun s => s.ledger.Wf ∧ s.Good) (fun {s s' t?} h hright hs => ?_) (fun {s t?} h => ?_)
    ⟨Ledger.wf_init, good_init⟩
  · refine ⟨?_, hright.2 _ hs⟩
    cases t? with
    | none =>
      cases hs
      exact Ledger.wf_init
    | some t =>
      cases hs
      exact Ledger.wf_step h.1 t
  · cases t? with
    | none => exact iff_of_true ⟨nofun, by rintro _ ⟨⟩; exact good_init⟩ nofun
    | some t => exact (rightStep_iff h.1 h.2 t).trans (by simp [ClearStep])

/-- Lines of 64 bytes. -/
def lines64 : Config := { maxDepth := 64, cachelineSz := 64 }

/-- A `ReadShared` that wraps and starts in the middle of its line, a snoop of the line, and data. -/
def wrapThenSnoop : List (Option (Edge 4)) :=
  [some { ar := some { arid := 1, araddr := 0x10, arsnoop := 1, arprot := 0 } }, some { r := some (1, 0, true) },
    some { ac := some { acaddr := 0, acsnoop := 1, acprot := 0 } }, some { cr := some 1 }]

/-- The line is not found, and the data is reported. -/
theorem not_runOk_lines : ¬RunOk (step lines64) (RightStep lines64) ({} : State 4) (transfers wrapThenSnoop) := by
  rintro ⟨-, hrest⟩
  obtain ⟨-, hrest⟩ := hrest _ rfl
  obtain ⟨-, hrest⟩ := hrest _ rfl
  obtain ⟨⟨hright, -⟩, -⟩ := hrest _ rfl
  have hanswer : Ledger.Answered (w := 4) lines64 { held := [⟨0, false⟩] } { acaddr := 0, acsnoop := 1, acprot := 0 } true := by
    unfold Ledger.Answered
    decide
  have hreports := hright _ rfl _ rfl hanswer
  revert hreports
  decide

end State

end LibSystemCTLM.Ace.CdDataChecker
