import LibSystemCTLM.Foundation.FirstMatch
import LibSystemCTLM.Foundation.Runs
import Mathlib.Data.BitVec
import Mathlib.Data.List.DropRight
import Mathlib.Data.List.TakeWhile

/-!
# The checker of ACE writes

`checker_ace_wr_tx` in `checker-ace.h` keeps the writes of which data is outstanding, behind which barriers and evicts
wait, too, and those that wait for their response. With each address it looks for writes that must not be outstanding together.

The ledger beside it knows which writes are outstanding, and which of them have all of their data. What the checker makes of the
transfers of a run is right exactly if they meet `Clear` (`runOk_writes_iff`): there is room in the lists, data comes behind its address, a
response is of the write that is found for it, so that none is of a write behind one without all of its data, a `WriteBack` or
a `WriteClean` is issued with a `WriteClean` outstanding exactly if a `WriteUnique` or a `WriteLineUnique` is, and no
wrapping one has a number of beats that is allowed, or one more.

## The model

The three channels are looked at in the order of `Edge.transfers`, and a step is one transfer, or a reset. Addresses are
numbered, which is no variable of the source.

## Honest scope

`en_wr_tx_check` is set. What is reported of strobes and of `bresp`, which changes no list, is left out.
-/

namespace LibSystemCTLM.Ace.WriteChecker

open Foundation

/-- `ACE_MODE_ACE`, and the others. -/
inductive AceMode where
  | ace | aceLite
  deriving DecidableEq

/-- What the checker is configured with. -/
structure Config where
  maxDepth : ℕ
  cachelineSz : ℕ
  dataW : ℕ
  aceMode : AceMode

/-! ### Addresses -/

/-- The write address channel. -/
structure Aw (w : ℕ) where
  awid : BitVec w
  awaddr : BitVec 64
  awlen : BitVec 8
  awsize : BitVec 3
  awburst : BitVec 2
  awcache : BitVec 4
  awlock : BitVec 2 := 0
  awsnoop : BitVec 3
  awdomain : BitVec 2
  awbar : BitVec 2 := 0
  deriving DecidableEq

/-- What is wrong with the signals of an address. -/
inductive SignalError where
  /-- "awsize does not match data bus width" -/
  | size
  /-- "awsize, awlen does not match the cacheline size", or generates more. -/
  | length
  /-- "awcache is not 'modifiable'" -/
  | modifiable
  /-- "awlock with 'exclusive' set on a cacheline sized transaction" -/
  | exclusive
  /-- "address is not data bus width aligned'", or not cacheline size aligned. -/
  | alignment
  /-- "length error: transaction must be kept inside one cache line," -/
  | crossing
  /-- "awlen in WRAP not 2, 4, 8, 16 " -/
  | wrap
  /-- "awburst FIXED error" -/
  | fixed
  /-- "awburst error" -/
  | burst
  deriving DecidableEq

/-- A write with which another one must not be outstanding. -/
inductive Ongoing where
  | writeBack | writeClean | writeUnique | writeLineUnique
  deriving DecidableEq

/-- What is reported. -/
inductive Report where
  /-- "awsnoop error" -/
  | awsnoop
  /-- "awcache <-> awdomain error" -/
  | awcache
  | cachelineSz (e : SignalError)
  | writeUnique (e : SignalError)
  | writeBackWriteClean (e : SignalError)
  /-- "awsnoop error: ongoing .. while issuing a .." -/
  | ongoing (o : Ongoing)
  /-- "Write barrier error: .." -/
  | barrier (signal : String)
  /-- "Write barrier: number of outstanding is > 256" -/
  | barrierCount
  /-- "awsnoop error: normal transaction with the same id as an barrier" -/
  | normalId
  /-- "awsnoop error: ongoing barrier with the same id as a normal transaction" -/
  | barrierId
  /-- "Maximum outstanding transactions reached" -/
  | maximum
  /-- "Error on data burst length or wlast identified on write data channel" -/
  | burstLength
  /-- "Unexpected data identified on write data channel" -/
  | unexpectedData
  /-- "Unexpected transaction id on write response channel" -/
  | unexpectedId
  deriving DecidableEq

/-- `align`. -/
def align (addr alignTo : ℕ) : ℕ := addr / alignTo * alignTo

variable {w : ℕ}

namespace Aw

variable (c : Config) (a : Aw w)

/-- `m_numBeats`. -/
def numBeats : ℕ := a.awlen.toNat + 1

/-- `numberBytes`. -/
def numberBytes : ℕ := 2 ^ a.awsize.toNat

/-- `tx_len`. -/
def txLen : ℕ := a.numberBytes * a.numBeats

def addr : ℕ := a.awaddr.toNat

def isBarrier : Bool := decide (0 < a.awbar)

/-- A domain of `NonSharable` and `System`. -/
def nonShared : Bool := decide (a.awdomain = 0 ∨ a.awdomain = 3)

/-- A domain of `Inner` and `Outer`. -/
def shared : Bool := decide (a.awdomain = 1 ∨ a.awdomain = 2)

def isEvict : Bool := !a.isBarrier && decide (a.awsnoop = 4) && a.shared

def isWriteUnique : Bool := !a.isBarrier && decide (a.awsnoop = 0) && a.shared

def isWriteLineUnique : Bool := !a.isBarrier && decide (a.awsnoop = 1) && a.shared

def isWriteClean : Bool := !a.isBarrier && decide (a.awsnoop = 2) && (decide (a.awdomain = 0) || a.shared)

def isWriteBack : Bool := !a.isBarrier && decide (a.awsnoop = 3) && (decide (a.awdomain = 0) || a.shared)

def hasData : Bool := !(a.isBarrier || a.isEvict)

def isModifiable : Bool := a.awcache.getLsbD 1

def isCacheable : Bool := decide (a.awcache >>> 2 &&& 3 ≠ 0)

/-- `m_AxLock == AXI_LOCK_EXCLUSIVE`. -/
def getExclusive : Bool := decide (a.awlock = 1)

/-- `CheckAWSnoop`. -/
def checkAWSnoop : Bool :=
  if a.isBarrier = true then decide (a.awsnoop = 0)
  else if a.awsnoop = 0 ∧ a.nonShared = true then true
  else if a.awsnoop = 4 then decide (c.aceMode = .ace) && a.shared
  else if a.awsnoop = 0 ∨ a.awsnoop = 1 then a.shared
  else if a.awsnoop = 2 ∨ a.awsnoop = 3 then decide (c.aceMode = .ace) && (decide (a.awdomain = 0) || a.shared)
  else false

/-- `CheckAWCache`. -/
def checkAWCache : Bool :=
  if a.isModifiable = false ∧ a.awdomain ≠ 3 then false
  else !(decide (a.awdomain = 3) && a.isCacheable)

/-- `is_cacheline_sized_tx`. -/
def isCachelineSizedTx : Bool := a.isWriteLineUnique || a.isEvict

/-- `CheckCachelineSzTx`. -/
def checkCachelineSzTx : Option SignalError :=
  if a.isCachelineSizedTx = false then none
  else if a.numberBytes ≠ c.dataW / 8 then some .size
  else if c.cachelineSz ≠ a.txLen then some .length
  else if a.isModifiable = false then some .modifiable
  else if a.getExclusive = true then some .exclusive
  else if a.awburst = 1 ∧ a.addr ≠ align a.addr c.cachelineSz then some .alignment
  else if a.awburst = 2 ∧ a.addr ≠ align a.addr (c.dataW / 8) then some .alignment
  else if a.awburst = 0 then some .fixed
  else none

/-- `CheckWriteUnique`. -/
def checkWriteUnique : Option SignalError :=
  if a.isWriteUnique = false then none
  else if ¬(a.awburst = 1 ∨ a.awburst = 2) then some .burst
  else if a.isModifiable = false then some .modifiable
  else if a.getExclusive = true then some .exclusive
  else none

/-- `CheckWriteBackWriteClean`, up to what depends on the type of the burst. -/
def checkLineWrite : Option SignalError :=
  if a.numberBytes ≠ c.dataW / 8 then some .size
  else if c.cachelineSz < a.txLen then some .length
  else if a.isModifiable = false then some .modifiable
  else if a.getExclusive = true then some .exclusive
  else if a.awburst ≠ 0 ∧ a.addr ≠ align a.addr (c.dataW / 8) then some .alignment
  else none

/-- The rest of it. That an incrementing burst has more than 16 beats is added to the message, and not reported. -/
def checkLineBurst : Option SignalError :=
  if a.awburst = 1 then
    if align ((a.addr + a.txLen - 1) % 2 ^ 64) c.cachelineSz ≠ align a.addr c.cachelineSz then some .crossing else none
  else if a.awburst = 2 then if a.awlen ∈ [2, 4, 8, 16] then none else some .wrap
  else if a.awburst = 0 then some .fixed
  else none

/-- `CheckWriteBackWriteClean`. -/
def checkWriteBackWriteClean : Option SignalError :=
  if a.isWriteBack || a.isWriteClean then (a.checkLineWrite c).or (a.checkLineBurst c) else none

/-- `CheckBarrierSignals`. -/
def checkBarrierSignals : Option String :=
  if a.awaddr ≠ 0 then some "awaddr != 0x0"
  else if a.awlen ≠ 0 then some "awlen != 0x0"
  else if a.awburst ≠ 1 then some "awburst != 0x1"
  else if a.awsnoop ≠ 0 then some "awsnoop != 0x0"
  else if a.awcache ≠ 2 then some "awcache != 0x2"
  else if a.awlock ≠ 0 then some "awlock != 0x0"
  else none

end Aw

/-! ### The checker -/

/-- `Transaction`. -/
structure Transaction (w : ℕ) where
  number : ℕ
  aw : Aw w
  beat : ℕ := 1
  deriving DecidableEq

namespace Transaction

variable (t : Transaction w)

/-- The constructor takes the ID in an `uint8_t`. -/
def getID : BitVec 32 := ((t.aw.awid.setWidth 32).setWidth 8).setWidth 32

def incBeat : Transaction w := { t with beat := t.beat + 1 }

def done : Bool := decide (t.aw.numBeats < t.beat)

end Transaction

/-- A transfer of one of the channels. -/
inductive Transfer (w : ℕ) where
  | aw (a : Aw w)
  | w (wlast : Bool)
  | b (bid : BitVec w)
  deriving DecidableEq

/-- The signals at a clock edge. -/
structure Edge (w : ℕ) where
  awvalid : Bool := false
  awready : Bool := false
  aw : Aw w
  wvalid : Bool := false
  wready : Bool := false
  wlast : Bool := false
  bvalid : Bool := false
  bready : Bool := false
  bid : BitVec w := 0

/-- The transfers of an edge, in the order in which they are looked at. -/
def Edge.transfers (e : Edge w) : List (Transfer w) :=
  (if (e.awvalid && e.awready) = true then [.aw e.aw] else []) ++ (if (e.wvalid && e.wready) = true then [.w e.wlast] else []) ++
    if (e.bvalid && e.bready) = true then [.b e.bid] else []

/-- `m_wtList`, `m_respList`, and the addresses since the last reset. -/
structure Checker (w : ℕ) where
  wtList : List (Transaction w) := []
  respList : List (Transaction w) := []
  accepted : ℕ := 0
  deriving DecidableEq

/-- `in_list`. -/
def inList (l : List (Transaction w)) (snoop : BitVec 3) : Bool :=
  if snoop = 3 then l.any fun t => t.aw.isWriteBack else l.any fun t => t.aw.isWriteClean

namespace Checker

variable (c : Config) (s : Checker w)

/-- `check_ongoing_writeback`, and the three others. -/
def checkOngoing (o : Ongoing) : List Report :=
  let snoop := match o with
    | .writeBack => 3
    | .writeClean => 2
    | .writeUnique => 0
    | .writeLineUnique => 1
  if inList s.wtList snoop || inList s.respList snoop then [.ongoing o] else []

/-- The check of writes that must not be outstanding together. -/
def checkSimultaneous (a : Aw w) : List Report :=
  (if a.isWriteUnique || a.isWriteLineUnique then s.checkOngoing .writeBack ++ s.checkOngoing .writeClean else []) ++
    if a.isWriteBack || a.isWriteClean then s.checkOngoing .writeUnique ++ s.checkOngoing .writeLineUnique else []

/-- The checks of barriers, and of the IDs of the others. -/
def checkBarriers (t : Transaction w) : List Report :=
  let l := s.wtList ++ s.respList
  if t.aw.isBarrier = true then
    (t.aw.checkBarrierSignals.map Report.barrier).toList ++
      (if c.aceMode = .ace ∧ 256 ≤ l.countP fun t => t.aw.isBarrier then [.barrierCount] else []) ++
      if l.any fun t' => !t'.aw.isBarrier && decide (t'.getID = t.getID) then [.normalId] else []
  else if l.any fun t' => t'.aw.isBarrier && decide (t'.getID = t.getID) then [.barrierId] else []

/-- `check_awsignals`. -/
def checkAwsignals (t : Transaction w) : List Report :=
  (if t.aw.checkAWSnoop c = true then [] else [.awsnoop]) ++ (if t.aw.checkAWCache = true then [] else [.awcache]) ++
    ((t.aw.checkCachelineSzTx c).map Report.cachelineSz).toList ++ (t.aw.checkWriteUnique.map Report.writeUnique).toList ++
    ((t.aw.checkWriteBackWriteClean c).map Report.writeBackWriteClean).toList ++ s.checkSimultaneous t.aw ++ s.checkBarriers c t

/-- An address. -/
def aw (a : Aw w) : Checker w × List Report :=
  if s.wtList.length < c.maxDepth then
    let t : Transaction w := { number := s.accepted, aw := a }
    let s' := if s.wtList = [] ∧ a.hasData = false then { s with respList := s.respList ++ [t] } else { s with wtList := s.wtList ++ [t] }
    ({ s' with accepted := s.accepted + 1 }, s.checkAwsignals c t)
  else ({ s with accepted := s.accepted + 1 }, [.maximum])

/-- A beat. With the last one the write waits for its response, and so do those without data behind it. -/
def beat (wlast : Bool) : Checker w × List Report :=
  match s.wtList with
  | [] => (s, [.unexpectedData])
  | wt :: rest =>
    let wt := wt.incBeat
    let reports := if wlast = wt.done then [] else [.burstLength]
    if wlast = true then
      let noData := fun t : Transaction w => !t.aw.hasData
      let (resp, full) := if s.respList.length < c.maxDepth then (s.respList ++ [wt], []) else (s.respList, [.maximum])
      ({ s with wtList := rest.dropWhile noData, respList := resp ++ rest.takeWhile noData }, reports ++ full)
    else ({ s with wtList := wt :: rest }, reports)

/-- `GetFirst`. -/
def getFirst (id : BitVec 32) : Option (Transaction w) := s.respList.find? fun t => decide (t.getID = id)

/-- A response. -/
def b (bid : BitVec w) : Checker w × List Report :=
  match s.getFirst (bid.setWidth 32) with
  | some _ => ({ s with respList := updateFirst (fun t => decide (t.getID = bid.setWidth 32)) (fun _ => none) s.respList }, [])
  | none => (s, [.unexpectedId])

/-- What a transfer does, and what is reported of it. -/
def step : Transfer w → Checker w × List Report
  | .aw a => s.aw c a
  | .w wlast => s.beat c wlast
  | .b bid => s.b bid

end Checker

/-! ### What there is to be found -/

/-- A write without its response, and whether all of its data came. There is none of a barrier and an evict. -/
structure Entry (w : ℕ) where
  number : ℕ
  aw : Aw w
  taken : ℕ := 0
  complete : Bool := !aw.hasData
  deriving DecidableEq

/-- The writes without their responses in the order of their addresses, the addresses since the last reset, and whether data came before
its address. -/
structure Ledger (w : ℕ) where
  outstanding : List (Entry w) := []
  accepted : ℕ := 0
  early : Bool := false
  deriving DecidableEq

namespace Ledger

variable (c : Config) (l : Ledger w)

/-- An address. -/
def issue (a : Aw w) : Ledger w :=
  { l with outstanding := l.outstanding ++ [{ number := l.accepted, aw := a }], accepted := l.accepted + 1 }

/-- A beat, of the first write without all of its data. -/
def beat (wlast : Bool) : Ledger w :=
  if l.outstanding.all Entry.complete = true then { l with early := true }
  else
    { l with outstanding :=
        updateFirst (fun e => !e.complete) (fun e => some { e with taken := e.taken + 1, complete := wlast }) l.outstanding }

/-- The write that a response is of: the oldest of its ID, if all of its data came. -/
def due (bid : BitVec w) : Option (Entry w) := (l.outstanding.find? fun e => decide (e.aw.awid = bid)).filter Entry.complete

/-- A response. -/
def respond (bid : BitVec w) : Ledger w :=
  match l.due bid with
  | some _ => { l with outstanding := updateFirst (fun e => decide (e.aw.awid = bid)) (fun _ => none) l.outstanding }
  | none => l

/-- What a transfer adds. -/
def step : Transfer w → Ledger w
  | .aw a => l.issue a
  | .w wlast => l.beat wlast
  | .b bid => l.respond bid

/-- A write is issued that must not be outstanding with another one. -/
def Conflict (a : Aw w) : Prop :=
  ((a.isWriteUnique || a.isWriteLineUnique) = true ∧ ∃ e ∈ l.outstanding, (e.aw.isWriteBack || e.aw.isWriteClean) = true) ∨
    (a.isWriteBack || a.isWriteClean) = true ∧ ∃ e ∈ l.outstanding, (e.aw.isWriteUnique || e.aw.isWriteLineUnique) = true

/-- The writes before the first one without all of its data, and the others. -/
def responding : List (Entry w) := l.outstanding.takeWhile Entry.complete

def waiting : List (Entry w) := l.outstanding.dropWhile Entry.complete

/-- The first write of which the ID that was kept is that of a response, of those before the first one without all of its data. -/
def found (bid : BitVec w) : Option (Entry w) :=
  l.responding.find? fun e => decide (((e.aw.awid.setWidth 32).setWidth 8).setWidth 32 = bid.setWidth 32)

/-- What is asked of a transfer. -/
def Clear : Transfer w → Prop
  | .aw a =>
    l.waiting.length < c.maxDepth ∧
      ((a.isWriteBack || a.isWriteClean) = true →
        ((∃ e ∈ l.outstanding, e.aw.isWriteClean = true) ↔ ∃ e ∈ l.outstanding, (e.aw.isWriteUnique || e.aw.isWriteLineUnique) = true) ∧
          (a.awburst = 2 → a.checkLineWrite c = none → a.numBeats ∉ [2, 3, 4, 5, 8, 9, 16, 17]))
  | .w wlast => l.waiting ≠ [] ∧ (wlast = true → l.responding.length < c.maxDepth)
  | .b bid => l.found bid = l.due bid

end Ledger

/-! ### The parts of the ledger -/

namespace Ledger

variable {c : Config} {l : Ledger w}

/-- The numbers are of the addresses that were accepted, and of those that wait behind the first one nothing but data is missing. -/
structure Wf (l : Ledger w) : Prop where
  nodup : (l.outstanding.map Entry.number).Nodup
  lt : ∀ e ∈ l.outstanding, e.number < l.accepted
  waiting : ∀ e ∈ l.waiting, e.complete = !e.aw.hasData

theorem wf_init : ({} : Ledger w).Wf := ⟨List.nodup_nil, fun _ => nofun, fun _ => nofun⟩

theorem responding_append_waiting (l : Ledger w) : l.responding ++ l.waiting = l.outstanding := List.takeWhile_append_dropWhile

theorem complete_of_responding {e : Entry w} (h : e ∈ l.responding) : e.complete = true := List.mem_takeWhile_imp h

/-- The first one that waits has not all of its data. -/
theorem complete_of_waiting {e : Entry w} {rest : List (Entry w)} (h : l.waiting = e :: rest) : e.complete = false := by
  have hne : l.waiting ≠ [] := by simp [h]
  have hhead := List.head_dropWhile_not Entry.complete hne
  simp only [waiting] at h
  simpa only [h, List.head_cons] using hhead

theorem responding_eq {xs : List (Entry w)} (h : l.outstanding = xs ++ l.waiting) : l.responding = xs :=
  List.append_cancel_right ((responding_append_waiting l).trans h)

theorem outstanding_all : l.outstanding.all Entry.complete = true ↔ l.waiting = [] := by
  rw [waiting, List.dropWhile_eq_nil_iff, List.all_eq_true]

theorem waiting_issue_of_ne (h : l.waiting ≠ []) (a : Aw w) : (l.issue a).waiting = l.waiting ++ [{ number := l.accepted, aw := a }] := by
  unfold waiting issue at *
  rw [List.dropWhile_append, if_neg (by simpa using h)]

theorem waiting_issue_of_nil (h : l.waiting = []) (a : Aw w) :
    (l.issue a).waiting = if a.hasData = true then [{ number := l.accepted, aw := a }] else [] := by
  unfold waiting issue at *
  rw [List.dropWhile_append, if_pos (by simpa using h)]
  cases a.hasData <;> simp

theorem responding_issue (a : Aw w) :
    (l.issue a).responding =
      if l.waiting = [] ∧ a.hasData = false then l.responding ++ [{ number := l.accepted, aw := a }] else l.responding := by
  have hout : (l.issue a).outstanding = l.responding ++ (l.waiting ++ [{ number := l.accepted, aw := a }]) := by
    rw [← List.append_assoc, responding_append_waiting]
    rfl
  apply responding_eq
  rw [hout]
  by_cases hnil : l.waiting = []
  · rw [waiting_issue_of_nil hnil, hnil]
    cases a.hasData <;> simp
  · rw [waiting_issue_of_ne hnil, if_neg fun h => hnil h.1]

theorem outstanding_beat {e : Entry w} {rest : List (Entry w)} (h : l.waiting = e :: rest) (wlast : Bool) :
    (l.beat wlast).outstanding = l.responding ++ { e with taken := e.taken + 1, complete := wlast } :: rest := by
  have hnone : l.responding.find? (fun e => !e.complete) = none :=
    List.find?_eq_none.2 fun e he => by simp [complete_of_responding he]
  have hne : l.waiting ≠ [] := by simp [h]
  rw [beat, if_neg (mt outstanding_all.1 hne)]
  dsimp only
  rw [← responding_append_waiting l, updateFirst_append_of_none hnone, h, updateFirst, if_pos (by simp [complete_of_waiting h])]
  rfl

theorem waiting_beat {e : Entry w} {rest : List (Entry w)} (h : l.waiting = e :: rest) :
    (l.beat false).waiting = { e with taken := e.taken + 1, complete := false } :: rest := by
  rw [waiting, outstanding_beat h, List.dropWhile_append_of_pos fun _ he => complete_of_responding he, List.dropWhile_cons_of_neg (by simp)]

theorem responding_beat {e : Entry w} {rest : List (Entry w)} (h : l.waiting = e :: rest) : (l.beat false).responding = l.responding :=
  responding_eq (by rw [waiting_beat h, outstanding_beat h])

/-- With the last beat it does not, and those without data behind it do not either. -/
theorem waiting_last {e : Entry w} {rest : List (Entry w)} (h : l.waiting = e :: rest) :
    (l.beat true).waiting = rest.dropWhile Entry.complete := by
  rw [waiting, outstanding_beat h, List.dropWhile_append_of_pos fun _ he => complete_of_responding he, List.dropWhile_cons_of_pos rfl]

theorem responding_last {e : Entry w} {rest : List (Entry w)} (h : l.waiting = e :: rest) :
    (l.beat true).responding = l.responding ++ { e with taken := e.taken + 1, complete := true } :: rest.takeWhile Entry.complete :=
  responding_eq (by rw [waiting_last h, outstanding_beat h, List.append_assoc, List.cons_append, List.takeWhile_append_dropWhile])

/-- What is due is outstanding, and so is what is found. -/
theorem mem_of_due {bid : BitVec w} {e : Entry w} (h : e ∈ l.due bid) : e ∈ l.outstanding ∧ e.complete = true ∧ e.aw.awid = bid := by
  obtain ⟨hfind, hcomplete⟩ := Option.mem_filter_iff.1 h
  exact ⟨List.mem_of_find?_eq_some hfind, hcomplete, of_decide_eq_true (List.find?_some (p := fun e : Entry w => decide (e.aw.awid = bid)) hfind)⟩

theorem mem_of_found {bid : BitVec w} {e : Entry w} (h : e ∈ l.found bid) : e ∈ l.responding := List.mem_of_find?_eq_some h

theorem mem_outstanding_of_responding {e : Entry w} (h : e ∈ l.responding) : e ∈ l.outstanding := (List.takeWhile_subset _) h

end Ledger

/-! ### The run -/

/-- The checker, and the ledger. -/
structure State (w : ℕ) where
  checker : Checker w := {}
  ledger : Ledger w := {}
  deriving DecidableEq

/-- What the checker keeps of a write. -/
def Entry.kept (e : Entry w) : Transaction w := { number := e.number, aw := e.aw, beat := e.taken + 1 }

namespace State

variable (c : Config) (s : State w)

/-- A transfer, or without one a reset until it is released. -/
def step (s : State w) : Option (Transfer w) → Option (State w)
  | none => some {}
  | some t => some { checker := (s.checker.step c t).1, ledger := s.ledger.step t }

/-- The transfers of the edges of a run, or without an edge a reset. -/
def transfers (es : List (Option (Edge w))) : List (Option (Transfer w)) :=
  es.flatMap fun e? => e?.elim [none] fun e => e.transfers.map some

/-- Writes that must not be outstanding together are reported, and no others, and a `WriteBack` or `WriteClean` that wraps and is all right but for its
length is reported unless it has 2, 4, 8 or 16 beats. A response is taken for the write that it is of. -/
def Right : Transfer w → Prop
  | .aw a =>
    ((∃ o, .ongoing o ∈ (s.checker.aw c a).2) ↔ s.ledger.Conflict a) ∧
      ((a.isWriteBack || a.isWriteClean) = true → a.awburst = 2 → a.checkLineWrite c = none →
        ((∃ e, .writeBackWriteClean e ∈ (s.checker.aw c a).2) ↔ a.numBeats ∉ [2, 4, 8, 16]))
  | .w _ => True
  | .b bid => (s.checker.getFirst (bid.setWidth 32)).map Transaction.number = (s.ledger.due bid).map Entry.number

/-- The lists are what is outstanding, and no data came before its address. -/
structure Good (s : State w) : Prop where
  respList : s.checker.respList = s.ledger.responding.map Entry.kept
  wtList : s.checker.wtList = s.ledger.waiting.map Entry.kept
  accepted : s.checker.accepted = s.ledger.accepted
  early : s.ledger.early = false

/-- What is made of a transfer is right, and after it the lists are. -/
def RightStep (s : State w) (t? : Option (Transfer w)) : Prop := (∀ t ∈ t?, s.Right c t) ∧ ∀ s', s.step c t? = some s' → s'.Good

/-- What is asked of a step. -/
def ClearStep (s : State w) (t? : Option (Transfer w)) : Prop := ∀ t ∈ t?, s.ledger.Clear c t

end State

/-! ### What is found of an address -/

namespace Checker

variable {c : Config} {s : Checker w}

/-- The errors of the signals are none of writes that must not be outstanding together. -/
theorem ongoing_mem_checkAwsignals {t : Transaction w} {o : Ongoing} :
    .ongoing o ∈ s.checkAwsignals c t ↔ .ongoing o ∈ s.checkSimultaneous t.aw := by
  have hbarriers : .ongoing o ∉ s.checkBarriers c t := by
    unfold checkBarriers
    cases t.aw.checkBarrierSignals <;> grind
  have hsnoop : .ongoing o ∉ (if t.aw.checkAWSnoop c = true then [] else [.awsnoop] : List Report) := by grind
  have hcache : .ongoing o ∉ (if t.aw.checkAWCache = true then [] else [.awcache] : List Report) := by grind
  simp [checkAwsignals, hbarriers, hsnoop, hcache]

theorem writeBackWriteClean_mem_checkAwsignals {t : Transaction w} {e : SignalError} :
    .writeBackWriteClean e ∈ s.checkAwsignals c t ↔ t.aw.checkWriteBackWriteClean c = some e := by
  have hbarriers : .writeBackWriteClean e ∉ s.checkBarriers c t := by
    unfold checkBarriers
    cases t.aw.checkBarrierSignals <;> grind
  have hongoing : ∀ o, .writeBackWriteClean e ∉ s.checkOngoing o := fun o => by
    unfold checkOngoing
    grind
  have hsimultaneous : .writeBackWriteClean e ∉ s.checkSimultaneous t.aw := by
    unfold checkSimultaneous
    grind
  have hsnoop : .writeBackWriteClean e ∉ (if t.aw.checkAWSnoop c = true then [] else [.awsnoop] : List Report) := by grind
  have hcache : .writeBackWriteClean e ∉ (if t.aw.checkAWCache = true then [] else [.awcache] : List Report) := by grind
  simp [checkAwsignals, hbarriers, hsimultaneous, hsnoop, hcache]

variable {wt : Transaction w} {rest : List (Transaction w)}

theorem beat_more (h : s.wtList = wt :: rest) : (s.beat c false).1 = { s with wtList := wt.incBeat :: rest } := by
  unfold beat
  rw [h]
  rfl

theorem beat_last (h : s.wtList = wt :: rest) :
    (s.beat c true).1 =
      { s with
        wtList := rest.dropWhile fun t => !t.aw.hasData
        respList := (if s.respList.length < c.maxDepth then s.respList ++ [wt.incBeat] else s.respList) ++ rest.takeWhile fun t => !t.aw.hasData } := by
  unfold beat
  rw [h]
  dsimp only
  rw [if_pos rfl]
  split <;> rfl

end Checker

/-- The number of beats is allowed where the length is, exactly if it is neither of them. -/
theorem wrap_iff (a : Aw w) : (a.awlen ∉ [2, 4, 8, 16] ↔ a.numBeats ∉ [2, 4, 8, 16]) ↔ a.numBeats ∉ [2, 3, 4, 5, 8, 9, 16, 17] := by
  have hmem : a.awlen ∈ ([2, 4, 8, 16] : List (BitVec 8)) ↔ a.awlen.toNat ∈ [2, 4, 8, 16] := by
    simp only [List.mem_cons, List.not_mem_nil, or_false, BitVec.toNat_eq]
    rfl
  rw [hmem, Aw.numBeats]
  simp only [List.mem_cons, List.not_mem_nil, or_false]
  omega

theorem not_unique_and_line (a : Aw w) (hu : (a.isWriteUnique || a.isWriteLineUnique) = true) : ¬(a.isWriteBack || a.isWriteClean) = true := by
  simp only [Aw.isWriteUnique, Aw.isWriteLineUnique, Aw.isWriteBack, Aw.isWriteClean, Bool.or_eq_true, Bool.and_eq_true, decide_eq_true_eq] at *
  grind

namespace State

variable {c : Config} {s : State w}

theorem Good.any_iff (h : s.Good) (q : Aw w → Bool) :
    (s.checker.wtList.any (fun t => q t.aw) || s.checker.respList.any fun t => q t.aw) = true ↔ ∃ e ∈ s.ledger.outstanding, q e.aw = true := by
  rw [h.wtList, h.respList, ← Ledger.responding_append_waiting s.ledger]
  simp only [List.any_map, Bool.or_eq_true, List.any_eq_true, Function.comp_apply, List.mem_append, or_and_right, exists_or]
  exact or_comm

theorem Good.length_eq (h : s.Good) : s.checker.respList.length + s.checker.wtList.length = s.ledger.outstanding.length := by
  rw [h.wtList, h.respList, List.length_map, List.length_map, ← List.length_append, Ledger.responding_append_waiting]

/-- What the searches look for: but for a `WriteBack` it is a `WriteClean`. -/
theorem Good.ongoing_mem_checkOngoing (h : s.Good) {o o' : Ongoing} :
    .ongoing o' ∈ s.checker.checkOngoing o ↔
      o' = o ∧ ∃ e ∈ s.ledger.outstanding, (if o = .writeBack then e.aw.isWriteBack else e.aw.isWriteClean) = true := by
  have hmem : ∀ b : Bool, .ongoing o' ∈ (if b = true then [.ongoing o] else [] : List Report) ↔ o' = o ∧ b = true := fun b => by
    cases b <;> simp
  have hback := h.any_iff Aw.isWriteBack
  have hclean := h.any_iff Aw.isWriteClean
  unfold Checker.checkOngoing
  rw [hmem]
  refine and_congr_right fun _ => ?_
  cases o with
  | writeBack => exact hback
  | writeClean => exact hclean
  | writeUnique => exact hclean
  | writeLineUnique => exact hclean

/-- When writes are reported as outstanding together. -/
theorem Good.simultaneous_iff (h : s.Good) (a : Aw w) :
    (∃ o, .ongoing o ∈ s.checker.checkSimultaneous a) ↔
      ((a.isWriteUnique || a.isWriteLineUnique) = true ∧ ∃ e ∈ s.ledger.outstanding, (e.aw.isWriteBack || e.aw.isWriteClean) = true) ∨
        (a.isWriteBack || a.isWriteClean) = true ∧ ∃ e ∈ s.ledger.outstanding, e.aw.isWriteClean = true := by
  have hmem : ∀ (b : Bool) (l : List Report) (r : Report), r ∈ (if b = true then l else []) ↔ b = true ∧ r ∈ l := fun b l r => by cases b <;> simp
  simp only [Checker.checkSimultaneous, List.mem_append, hmem, h.ongoing_mem_checkOngoing]
  constructor
  · rintro ⟨o, ⟨hu, ⟨-, e, he, hkind⟩ | ⟨-, e, he, hkind⟩⟩ | ⟨hline, ⟨-, e, he, hkind⟩ | ⟨-, e, he, hkind⟩⟩⟩
    · exact .inl ⟨hu, e, he, by simp [show e.aw.isWriteBack = true from hkind]⟩
    · exact .inl ⟨hu, e, he, by simp [show e.aw.isWriteClean = true from hkind]⟩
    · exact .inr ⟨hline, e, he, hkind⟩
    · exact .inr ⟨hline, e, he, hkind⟩
  · rintro (⟨hu, e, he, hkind⟩ | ⟨hline, e, he, hkind⟩)
    · rcases Bool.or_eq_true_iff.1 hkind with hback | hclean
      · exact ⟨.writeBack, .inl ⟨hu, .inl ⟨rfl, e, he, hback⟩⟩⟩
      · exact ⟨.writeClean, .inl ⟨hu, .inr ⟨rfl, e, he, hclean⟩⟩⟩
    · exact ⟨.writeUnique, .inr ⟨hline, .inl ⟨rfl, e, he, hkind⟩⟩⟩

/-- What is made of an address for which there is room. -/
theorem right_aw_iff (h : s.Good) {a : Aw w} (hroom : s.checker.wtList.length < c.maxDepth) :
    s.Right c (.aw a) ↔
      ((a.isWriteBack || a.isWriteClean) = true →
        ((∃ e ∈ s.ledger.outstanding, e.aw.isWriteClean = true) ↔
            ∃ e ∈ s.ledger.outstanding, (e.aw.isWriteUnique || e.aw.isWriteLineUnique) = true) ∧
          (a.awburst = 2 → a.checkLineWrite c = none → a.numBeats ∉ [2, 3, 4, 5, 8, 9, 16, 17])) := by
  have hreports : (s.checker.aw c a).2 = s.checker.checkAwsignals c { number := s.checker.accepted, aw := a } := by
    rw [Checker.aw, if_pos hroom]
  simp only [Right, hreports, Checker.ongoing_mem_checkAwsignals, h.simultaneous_iff, Checker.writeBackWriteClean_mem_checkAwsignals, Ledger.Conflict]
  cases hline : (a.isWriteBack || a.isWriteClean) with
  | false => simp
  | true =>
    have hunique : (a.isWriteUnique || a.isWriteLineUnique) = false := Bool.eq_false_iff.2 fun hu => not_unique_and_line a hu hline
    simp only [hunique, Bool.false_eq_true, false_and, false_or, true_and, forall_const]
    refine and_congr_right fun _ => imp_congr_right fun hburst => imp_congr_right fun hsignals => ?_
    rw [← wrap_iff]
    refine iff_congr ?_ Iff.rfl
    rw [Aw.checkWriteBackWriteClean, if_pos hline, hsignals, Option.none_or, Aw.checkLineBurst, if_neg (by simp [hburst]), if_pos hburst]
    split
    · rename_i hlen
      exact iff_of_false (by simp) (not_not.2 hlen)
    · rename_i hlen
      exact iff_of_true ⟨_, rfl⟩ hlen

/-- An address is kept if there is room for it. -/
theorem good_aw_iff (h : s.Good) (a : Aw w) :
    Good { checker := (s.checker.aw c a).1, ledger := s.ledger.issue a } ↔ s.ledger.waiting.length < c.maxDepth := by
  have hlen : s.checker.wtList.length = s.ledger.waiting.length := by rw [h.wtList, List.length_map]
  rw [← hlen, Checker.aw]
  by_cases hroom : s.checker.wtList.length < c.maxDepth
  · refine iff_of_true ?_ hroom
    rw [if_pos hroom]
    have hnil : s.checker.wtList = [] ↔ s.ledger.waiting = [] := by rw [h.wtList, List.map_eq_nil_iff]
    have hkept : (Entry.kept { number := s.ledger.accepted, aw := a } : Transaction w) = { number := s.checker.accepted, aw := a } := by
      rw [h.accepted]
      rfl
    by_cases hresp : s.checker.wtList = [] ∧ a.hasData = false
    · have hw := hnil.1 hresp.1
      dsimp only
      rw [if_pos hresp]
      refine ⟨?_, ?_, congrArg (· + 1) h.accepted, h.early⟩
      · rw [Ledger.responding_issue, if_pos ⟨hw, hresp.2⟩, List.map_append, List.map_singleton, hkept, h.respList]
      · rw [Ledger.waiting_issue_of_nil hw, if_neg (by simp [hresp.2]), List.map_nil]
        exact hresp.1
    · dsimp only
      rw [if_neg hresp]
      refine ⟨?_, ?_, congrArg (· + 1) h.accepted, h.early⟩
      · rw [Ledger.responding_issue, if_neg fun hc => hresp ⟨hnil.2 hc.1, hc.2⟩]
        exact h.respList
      · by_cases hw : s.ledger.waiting = []
        · have hdata : a.hasData = true := by simpa [hnil.2 hw] using hresp
          rw [Ledger.waiting_issue_of_nil hw, if_pos hdata, List.map_singleton, hkept]
          dsimp only
          rw [hnil.2 hw, List.nil_append]
        · rw [Ledger.waiting_issue_of_ne hw, List.map_append, List.map_singleton, hkept, ← h.wtList]
  · refine iff_of_false (fun hgood => ?_) hroom
    have hold := h.length_eq
    have hnew := hgood.length_eq
    rw [if_neg hroom] at hnew
    simp only [Ledger.issue, List.length_append, List.length_singleton] at hnew
    omega

/-- Those behind the first one that waits have no data or wait for it. -/
theorem map_kept_rest (hwf : s.ledger.Wf) {e : Entry w} {rest : List (Entry w)} (hw : s.ledger.waiting = e :: rest) :
    ((rest.map Entry.kept).dropWhile fun t => !t.aw.hasData) = (rest.dropWhile Entry.complete).map Entry.kept ∧
      ((rest.map Entry.kept).takeWhile fun t => !t.aw.hasData) = (rest.takeWhile Entry.complete).map Entry.kept := by
  have hdata : ∀ e ∈ rest, (!e.aw.hasData) = e.complete := fun e he => (hwf.waiting e (hw ▸ List.mem_cons_of_mem _ he)).symm
  rw [List.dropWhile_map, List.takeWhile_map]
  exact ⟨congrArg _ (dropWhile_congr hdata), congrArg _ (takeWhile_congr hdata)⟩

/-- A beat is of the first write that waits. -/
theorem good_w_iff (hwf : s.ledger.Wf) (h : s.Good) (wlast : Bool) :
    Good { checker := (s.checker.beat c wlast).1, ledger := s.ledger.beat wlast } ↔
      s.ledger.waiting ≠ [] ∧ (wlast = true → s.ledger.responding.length < c.maxDepth) := by
  have hwt := h.wtList
  cases hw : s.ledger.waiting with
  | nil =>
    refine iff_of_false (fun hgood => ?_) fun hc => hc.1 rfl
    have hearly := hgood.early
    rw [Ledger.beat, if_pos (Ledger.outstanding_all.2 hw)] at hearly
    cases hearly
  | cons e rest =>
    rw [hw, List.map_cons] at hwt
    have haccepted : (s.ledger.beat wlast).accepted = s.ledger.accepted := by
      unfold Ledger.beat
      split <;> rfl
    have hearly : (s.ledger.beat wlast).early = s.ledger.early := by
      rw [Ledger.beat, if_neg (mt Ledger.outstanding_all.1 (by simp [hw]))]
    cases wlast with
    | false =>
      rw [Checker.beat_more hwt]
      refine iff_of_true ⟨?_, ?_, h.accepted.trans haccepted.symm, hearly.trans h.early⟩ ⟨by simp, by simp⟩
      · rw [Ledger.responding_beat hw]
        exact h.respList
      · rw [Ledger.waiting_beat hw]
        rfl
    | true =>
      obtain ⟨hdrop, htake⟩ := map_kept_rest hwf hw
      have hlen : s.checker.respList.length = s.ledger.responding.length := by rw [h.respList, List.length_map]
      rw [Checker.beat_last hwt, hlen, hdrop, htake]
      by_cases hroom : s.ledger.responding.length < c.maxDepth
      · rw [if_pos hroom]
        refine iff_of_true ⟨?_, ?_, h.accepted.trans haccepted.symm, hearly.trans h.early⟩ ⟨by simp, fun _ => hroom⟩
        · rw [Ledger.responding_last hw, List.map_append, ← h.respList, List.append_assoc]
          rfl
        · rw [Ledger.waiting_last hw]
      · rw [if_neg hroom]
        refine iff_of_false (fun hgood => ?_) fun hc => hroom (hc.2 rfl)
        have hnew := hgood.length_eq
        have hrest := congrArg List.length (List.takeWhile_append_dropWhile (p := Entry.complete) (l := rest))
        rw [Ledger.outstanding_beat hw] at hnew
        simp only [List.length_append, List.length_map, List.length_cons] at hnew hrest
        omega

theorem getFirst_eq (h : s.Good) (bid : BitVec w) : s.checker.getFirst (bid.setWidth 32) = (s.ledger.found bid).map Entry.kept := by
  rw [Checker.getFirst, h.respList, List.find?_map]
  rfl

/-- A response is taken for the right write exactly if that one is found. -/
theorem right_b_iff (hwf : s.ledger.Wf) (h : s.Good) (bid : BitVec w) : s.Right c (.b bid) ↔ s.ledger.found bid = s.ledger.due bid := by
  change (s.checker.getFirst _).map Transaction.number = _ ↔ _
  rw [getFirst_eq h, Option.map_map]
  exact (option_eq_iff_map_key hwf.nodup (fun _ he => Ledger.mem_outstanding_of_responding (Ledger.mem_of_found he))
    fun _ he => (Ledger.mem_of_due he).1).symm

/-- The ledger after a response to a write that responds. -/
theorem respond_of_found {l : Ledger w} {bid : BitVec w} {e : Entry w} (hdue : l.due bid = some e) (hmem : e ∈ l.responding) :
    l.responding.find? (fun e => decide (e.aw.awid = bid)) = some e ∧
      (l.respond bid).responding = updateFirst (fun e => decide (e.aw.awid = bid)) (fun _ => none) l.responding ∧ (l.respond bid).waiting = l.waiting := by
  have hfind : l.outstanding.find? (fun e => decide (e.aw.awid = bid)) = some e := (Option.mem_filter_iff.1 hdue).1
  have hresp : l.responding.find? (fun e => decide (e.aw.awid = bid)) = some e := by
    rw [← Ledger.responding_append_waiting l, List.find?_append] at hfind
    cases hr : l.responding.find? fun e => decide (e.aw.awid = bid) with
    | some e' =>
      rw [hr, Option.some_or] at hfind
      exact hfind
    | none =>
      have hid := (Ledger.mem_of_due hdue).2.2
      exact absurd hid (by simpa using List.find?_eq_none.1 hr e hmem)
  have hout : (l.respond bid).outstanding = updateFirst (fun e => decide (e.aw.awid = bid)) (fun _ => none) l.responding ++ l.waiting := by
    rw [Ledger.respond, hdue]
    dsimp only
    rw [← updateFirst_append_of_some hresp, Ledger.responding_append_waiting]
  have hwait : (l.respond bid).waiting = l.waiting := by
    rw [Ledger.waiting, hout, List.dropWhile_append_of_pos fun _ he => Ledger.complete_of_responding (updateFirst_none_subset he)]
    exact List.dropWhile_idempotent _ _
  exact ⟨hresp, Ledger.responding_eq (by rw [hwait, hout]), hwait⟩

theorem good_b (h : s.Good) {bid : BitVec w} (hfound : s.ledger.found bid = s.ledger.due bid) :
    Good { checker := (s.checker.b bid).1, ledger := s.ledger.respond bid } := by
  have hget := getFirst_eq h bid
  rw [hfound] at hget
  unfold Checker.b
  rw [hget]
  cases hdue : s.ledger.due bid with
  | none =>
    have hsame : s.ledger.respond bid = s.ledger := by rw [Ledger.respond, hdue]
    rw [hsame]
    exact h
  | some e =>
    obtain ⟨hfind, hresp, hwait⟩ := respond_of_found hdue (Ledger.mem_of_found (hfound.trans hdue))
    have haccepted : (s.ledger.respond bid).accepted = s.ledger.accepted := by rw [Ledger.respond, hdue]
    have hearly : (s.ledger.respond bid).early = s.ledger.early := by rw [Ledger.respond, hdue]
    refine ⟨?_, by rw [hwait]; exact h.wtList, h.accepted.trans haccepted.symm, hearly.trans h.early⟩
    dsimp only [Option.map_some]
    have hsearch : s.ledger.responding.find? (fun e => decide (((e.aw.awid.setWidth 32).setWidth 8).setWidth 32 = bid.setWidth 32)) =
        s.ledger.responding.find? fun e => decide (e.aw.awid = bid) := (hfound.trans hdue).trans hfind.symm
    have hmap : updateFirst (fun t => decide (t.getID = bid.setWidth 32)) (fun _ => none) (s.ledger.responding.map Entry.kept) =
        (updateFirst ((fun t => decide (t.getID = bid.setWidth 32)) ∘ Entry.kept) (fun _ => none) s.ledger.responding).map Entry.kept :=
      updateFirst_map fun _ _ => rfl
    rw [hresp, h.respList, hmap]
    exact congrArg _ (updateFirst_congr hsearch)

/-- The numbers stay those of the addresses. -/
theorem wf_step (hwf : s.ledger.Wf) (t : Transfer w) (hclear : s.ledger.Clear c t) : (s.ledger.step t).Wf := by
  cases t with
  | aw a =>
    change (s.ledger.issue a).Wf
    refine ⟨?_, fun e he => ?_, fun e he => ?_⟩
    · rw [Ledger.issue, List.map_append]
      refine hwf.nodup.append (List.nodup_singleton _) (List.disjoint_singleton.2 fun hmem => ?_)
      obtain ⟨e, he, hnum⟩ := List.mem_map.1 hmem
      exact (hwf.lt e he).ne hnum
    · rcases List.mem_append.1 he with hold | hnew
      · exact (hwf.lt e hold).trans (Nat.lt_succ_self _)
      · rw [List.mem_singleton.1 hnew]
        exact Nat.lt_succ_self _
    · by_cases hw : s.ledger.waiting = []
      · rw [Ledger.waiting_issue_of_nil hw] at he
        split at he
        · rw [List.mem_singleton.1 he]
        · cases he
      · rw [Ledger.waiting_issue_of_ne hw] at he
        rcases List.mem_append.1 he with hold | hnew
        · exact hwf.waiting e hold
        · rw [List.mem_singleton.1 hnew]
  | w wlast =>
    change (s.ledger.beat wlast).Wf
    obtain ⟨e, rest, hw⟩ := List.exists_cons_of_ne_nil hclear.1
    have haccepted : (s.ledger.beat wlast).accepted = s.ledger.accepted := by
      unfold Ledger.beat
      split <;> rfl
    have hnumbers : (s.ledger.beat wlast).outstanding.map Entry.number = s.ledger.outstanding.map Entry.number := by
      rw [Ledger.outstanding_beat hw, ← Ledger.responding_append_waiting s.ledger, hw]
      simp
    refine ⟨hnumbers ▸ hwf.nodup, fun e' he' => ?_, fun e' he' => ?_⟩
    · obtain ⟨e₀, he₀, hnum⟩ := List.mem_map.1 (hnumbers ▸ List.mem_map_of_mem (f := Entry.number) he')
      rw [← hnum, haccepted]
      exact hwf.lt e₀ he₀
    · cases wlast with
      | false =>
        rw [Ledger.waiting_beat hw] at he'
        rcases List.mem_cons.1 he' with rfl | hrest
        · have hdata := hwf.waiting e (hw ▸ List.mem_cons_self)
          rw [Ledger.complete_of_waiting hw] at hdata
          exact hdata
        · exact hwf.waiting e' (hw ▸ List.mem_cons_of_mem _ hrest)
      | true =>
        rw [Ledger.waiting_last hw] at he'
        exact hwf.waiting e' (hw ▸ List.mem_cons_of_mem _ ((List.dropWhile_sublist _).subset he'))
  | b bid =>
    change (s.ledger.respond bid).Wf
    cases hdue : s.ledger.due bid with
    | none =>
      have hsame : s.ledger.respond bid = s.ledger := by rw [Ledger.respond, hdue]
      rw [hsame]
      exact hwf
    | some e =>
      obtain ⟨-, -, hwait⟩ := respond_of_found hdue (Ledger.mem_of_found ((show s.ledger.found bid = s.ledger.due bid from hclear).trans hdue))
      have hout : (s.ledger.respond bid).outstanding = updateFirst (fun e => decide (e.aw.awid = bid)) (fun _ => none) s.ledger.outstanding := by
        rw [Ledger.respond, hdue]
      have haccepted : (s.ledger.respond bid).accepted = s.ledger.accepted := by rw [Ledger.respond, hdue]
      refine ⟨?_, fun e he => ?_, fun e he => hwf.waiting e (hwait ▸ he)⟩
      · rw [hout]
        exact hwf.nodup.sublist (map_updateFirst_sublist (fun _ => nofun))
      · rw [hout] at he
        rw [haccepted]
        exact hwf.lt e (updateFirst_none_subset he)

/-- What is made of a transfer is right exactly if the transfer is clear. -/
theorem rightStep_iff (hwf : s.ledger.Wf) (h : s.Good) (t : Transfer w) : s.RightStep c (some t) ↔ s.ledger.Clear c t := by
  have hstep : s.RightStep c (some t) ↔ s.Right c t ∧ Good { checker := (s.checker.step c t).1, ledger := s.ledger.step t } := by
    simp [RightStep, step]
  rw [hstep]
  cases t with
  | aw a =>
    have hlen : s.ledger.waiting.length = s.checker.wtList.length := by rw [h.wtList, List.length_map]
    constructor
    · rintro ⟨hright, hgood⟩
      have hroom := (good_aw_iff h a).1 hgood
      exact ⟨hroom, (right_aw_iff h (hlen ▸ hroom)).1 hright⟩
    · rintro ⟨hroom, hcond⟩
      exact ⟨(right_aw_iff h (hlen ▸ hroom)).2 hcond, (good_aw_iff h a).2 hroom⟩
  | w wlast => exact (and_iff_right trivial).trans (good_w_iff hwf h wlast)
  | b bid => exact (and_iff_left_of_imp fun hr => good_b h ((right_b_iff hwf h bid).1 hr)).trans (right_b_iff hwf h bid)

theorem good_init : ({} : State w).Good := ⟨rfl, rfl, rfl, rfl⟩

/-- **What the checker makes of the transfers of a run is right exactly if all of them are clear.** -/
theorem runOk_writes_iff (c : Config) (es : List (Option (Edge w))) :
    RunOk (step c) (RightStep c) ({} : State w) (transfers es) ↔ RunOk (step c) (ClearStep c) ({} : State w) (transfers es) := by
  refine runOk_congr_of_ok (I := fun s => s.ledger.Wf ∧ s.Good) (fun {s s' t?} h hright hs => ?_) (fun {s t?} h => ?_)
    ⟨Ledger.wf_init, good_init⟩
  · refine ⟨?_, hright.2 _ hs⟩
    cases t? with
    | none =>
      cases hs
      exact Ledger.wf_init
    | some t =>
      cases hs
      exact wf_step h.1 t ((rightStep_iff h.1 h.2 t).1 hright)
  · cases t? with
    | none => exact iff_of_true ⟨nofun, by rintro _ ⟨⟩; exact good_init⟩ nofun
    | some t => exact (rightStep_iff h.1 h.2 t).trans (by simp [ClearStep])

/-- Lines of 64 bytes, and a bus of 128 bits. -/
def lines64 : Config := { maxDepth := 64, cachelineSz := 64, dataW := 128, aceMode := .ace }

/-- A `WriteUnique` of an inner domain, and a `WriteBack` before its response. -/
def uniqueThenBack : List (Option (Edge 4)) :=
  [some { awvalid := true, awready := true,
          aw := { awid := 1, awaddr := 0, awlen := 0, awsize := 4, awburst := 1, awcache := 2, awsnoop := 0, awdomain := 1 } },
    some { awvalid := true, awready := true,
           aw := { awid := 2, awaddr := 64, awlen := 3, awsize := 4, awburst := 1, awcache := 2, awsnoop := 3, awdomain := 1 } }]

/-- Nothing is reported of it. -/
theorem not_runOk_writes : ¬RunOk (step lines64) (RightStep lines64) ({} : State 4) (transfers uniqueThenBack) := by
  rintro ⟨-, hrest⟩
  obtain ⟨⟨hright, -⟩, -⟩ := hrest _ rfl
  have hreport := (hright _ rfl).1.2 (.inr ⟨by decide, by decide⟩)
  obtain ⟨o, ho⟩ := hreport
  revert ho
  cases o <;> decide

end State

end LibSystemCTLM.Ace.WriteChecker
