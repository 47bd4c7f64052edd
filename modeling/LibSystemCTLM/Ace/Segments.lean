import LibSystemCTLM.Ace.Ordered

/-!
# A transaction in the snoop engine

How `snoop_engine_thread` and `snoop_done_thread` (`iconnect-ace.h`) carry out one transaction, cacheline by cacheline: the
loop that makes a snoop transaction for each line, the ports that answer, the downstream access of a snoop transaction, and
the end of each in `finalize_snoop_tr`, the last of which finalizes the transaction. `Assembled` says what should come of it,
and `assembled_of_reach` when it does.

## The model

A state is the transaction, the snoop transactions made for it so far, and how often it was finalized. What the ports answer,
and what a downstream access reads and how it is responded to, is up to the actions; each snoop transaction remembers it. The
snoop transactions are served in any order. The loop runs without waiting, so that nothing else happens meanwhile, unless no
port is to be snooped: then it may have to wait for room in `m_snoop_done_fifo`.

## Honest scope

What comes before the loop, the overlapping orderer, the PoS monitor and the collecting of DVM completes, is not part of it. A buffer
is a function, so that copying beyond its end is not an error of its own; `Fits.below` leaves these cases out.
-/

namespace LibSystemCTLM.Ace.Segments

open Foundation SnoopTransaction Orderer

/-- A snoop transaction, and what has become of it. -/
structure LineSnoop (N : ℕ) extends Seg N where
  /-- The ports that were snooped. -/
  asked : List (Fin N)
  /-- What ports have answered, the latest first. -/
  answers : List SnoopGp := []
  /-- What `m_ds_gp` has read. -/
  fetched : Option (ℕ → Byte) := none
  deleted : Bool := false

/-- A transaction in the snoop engine. -/
structure Engine (N : ℕ) where
  tr : Transaction
  /-- `snoop_engine_thread` is in its loop. -/
  looping : Bool := true
  /-- The snoop transactions, in the order they were made. -/
  snoops : List (LineSnoop N) := []
  /-- How often `DoneEvent` was notified. -/
  notified : ℕ := 0
  /-- How often the transaction was sent downstream. -/
  forwarded : ℕ := 0

/-- What happens next. -/
inductive Action (N : ℕ) where
  /-- A turn of the loop, or its end. -/
  | generate
  /-- `snoop_master_thread`: a port answers the snoop transaction `k`. -/
  | answer (k : ℕ) (port : Fin N) (gp : SnoopGp)
  /-- `snoop_done_thread` takes the snoop transaction. -/
  | snoopDone (k : ℕ)
  /-- The downstream port carries out its `m_ds_gp`, which holds `data` afterwards if it reads. -/
  | dsGp (k : ℕ) (data : ℕ → Byte) (response : Response)
  /-- The rest of `exec_snoop_downstream_gp`, and `finalize_snoop_tr`. -/
  | finalize (k : ℕ)

variable {N : ℕ} (ls : LineSize) (forwardDVM : Fin N → Bool)

/-- `addr` in turn `i` of the loop. -/
def lineAt (tr : Transaction) (i : ℕ) : Addr := ls.getTag tr.address + BitVec.ofNat 64 (i * ls.size)

/-- The snoop transaction of that turn, snooped in `process_snoop`. -/
def newSnoop (tr : Transaction) (i : ℕ) : LineSnoop N :=
  let st := SnoopTransaction.mk' tr (lineAt ls tr i) (numMasters forwardDVM tr)
  { st, ports := snoopedPorts forwardDVM tr, stage := if st.snoopDone then .snooped else .snooping, asked := snoopedPorts forwardDVM tr }

namespace Engine

variable (s : Engine N)

/-- The threads other than the one in the loop may run. -/
def yields : Bool := !s.looping || decide (numMasters forwardDVM s.tr = 0)

/-- How often the transaction was finalized. -/
def finalized : ℕ := s.notified + s.forwarded

/-- `ds_gp_done`, after a downstream access of a `ReadOnce`. -/
def dsGpDone (st : SnoopTransaction) : Transaction :=
  if (st.execDsGp && s.tr.isReadOnce) = true then
    { s.tr with data := copyData st.addr st.dsData ls.size s.tr.address s.tr.data s.tr.dataLength }
  else s.tr

/-- The transaction is done and `DoneEvent` is notified, or it goes downstream. -/
def finalizeTr (tr : Transaction) : Engine N :=
  if tr.done then { s with tr, notified := s.notified + 1 } else { s with tr, forwarded := s.forwarded + 1 }

/-- `SegmentDone`, with the errors of the snoop transaction. -/
def segmentDone (tr : Transaction) (st : SnoopTransaction) : Transaction :=
  { tr with
    nSegments := tr.nSegments - 1
    response := if st.gotErrorResponse then .genericError else tr.response }

/-- The response of a `ReadOnce` when all segments are received. -/
def allReceived (tr : Transaction) : Transaction :=
  if tr.isReadOnce ∧ tr.response = .incomplete then { tr with response := .ok } else tr

/-- `finalize_snoop_tr`. -/
def finalizeSnoopTr (tr : Transaction) (st : SnoopTransaction) : Engine N :=
  if (tr.isReadOnce || tr.isWriteUnique) = true then
    if (segmentDone tr st).nSegments ≠ 0 then { s with tr := segmentDone tr st }
    else s.finalizeTr (allReceived (segmentDone tr st))
  else s.finalizeTr tr

/-- One step. -/
def step : Action N → Option (Engine N)
  | .generate =>
    if s.looping then
      some (if s.snoops.length < s.tr.nSegments then { s with snoops := s.snoops ++ [newSnoop ls forwardDVM s.tr s.snoops.length] }
        else { s with looping := false })
    else none
  | .answer k port gp =>
    s.snoops[k]?.bind fun g =>
      if s.yields forwardDVM = true ∧ g.stage = .snooping ∧ port ∈ g.ports then
        let d := SnoopTransaction.portDone ls s.tr g.st gp
        some { s with
          tr := d.1
          snoops := s.snoops.set k { g with
            st := d.2, ports := g.ports.erase port, stage := if d.2.snoopDone then .snooped else .snooping, answers := gp :: g.answers } }
      else none
  | .snoopDone k =>
    s.snoops[k]?.bind fun g =>
      if s.yields forwardDVM = true ∧ g.stage = .snooped then
        some { s with snoops := s.snoops.set k { g with stage := if g.st.execDsGp then .downstream else .finalizing } }
      else none
  | .dsGp k data response =>
    s.snoops[k]?.bind fun g =>
      if s.yields forwardDVM = true ∧ g.stage = .downstream then
        some { s with snoops := s.snoops.set k { g with
          st := { g.st with dsData := if g.st.dsRead then data else g.st.dsData, dsResponse := response }
          stage := .finalizing
          fetched := if g.st.dsRead then some data else none } }
      else none
  | .finalize k =>
    s.snoops[k]?.bind fun g =>
      if s.yields forwardDVM = true ∧ g.stage = .finalizing ∧ g.deleted = false then
        some ({ s with snoops := s.snoops.set k { g with deleted := true } }.finalizeSnoopTr (s.dsGpDone ls g.st) g.st)
      else none

/-- The engine takes a transaction from its fifo. -/
def start (tr : Transaction) : Engine N where
  tr := { tr with nSegments := tr.numSegments ls }

end Engine

/-! ### What should come of a transaction -/

namespace LineSnoop

variable (g : LineSnoop N)

/-- Data that a snooped port has supplied, or data from downstream if none did. -/
def Supplied (v : ℕ → Byte) : Prop :=
  (∃ gp ∈ g.answers, gp.genattr.datatransfer = true ∧ gp.data = v) ∨
    ((∀ gp ∈ g.answers, gp.genattr.datatransfer = false) ∧ g.fetched = some v)

/-- The latest answer with data. -/
def lastData : Option SnoopGp := g.answers.find? fun gp => gp.genattr.datatransfer

/-- The data is dirty that the latest answer with data has. -/
def endsDirty : Bool := g.lastData.any fun gp => gp.genattr.dirty

end LineSnoop

/-- The cacheline of byte `j` of a transaction. -/
def lineOfByte (tr : Transaction) (j : ℕ) : Addr := ls.getTag (tr.address + BitVec.ofNat 64 j)

/-- The bytes that a transaction has in a line are these bytes of the line. -/
def OnLine (tr : Transaction) (data : ℕ → Byte) (line : Addr) (v : ℕ → Byte) : Prop :=
  ∀ j < tr.dataLength, lineOfByte ls tr j = line → data j = v (ls.getLineOffset (tr.address + BitVec.ofNat 64 j))

/-- **The transaction is snooped and assembled line by line.** -/
structure Assembled (tr : Transaction) (s : Engine N) : Prop where
  /-- No line is snooped twice. -/
  once : (s.snoops.map fun g => g.st.addr).Nodup
  /-- Every line that is snooped is one of the transaction, and the other ports are asked for it, each once. -/
  snooped : ∀ g ∈ s.snoops, (∃ j < tr.dataLength, g.st.addr = lineOfByte ls tr j) ∧ g.asked.Nodup ∧ ∀ i, i ∈ g.asked ↔ i.val ≠ tr.portId
  /-- After the loop, every line of the transaction is. -/
  all : s.looping = false → ∀ j < tr.dataLength, ∃ g ∈ s.snoops, g.st.addr = lineOfByte ls tr j
  /-- The transaction is finalized once, when all lines are completed. -/
  finalized : s.finalized = if s.looping = false ∧ ∀ g ∈ s.snoops, g.deleted = true then 1 else 0
  /-- Until then there is a step to take. -/
  progress : s.finalized = 0 → ∃ a, (s.step ls forwardDVM a).isSome = true
  /-- A `ReadOnce` has the data of each completed line. -/
  data : tr.isReadOnce = true → ∀ g ∈ s.snoops, g.deleted = true →
    ∃ v, g.Supplied v ∧ OnLine ls tr s.tr.data g.st.addr v
  /-- A `WriteUnique` keeps its own. -/
  kept : tr.isWriteUnique = true → s.tr.data = tr.data

/-- The transactions of which the promise is kept. -/
structure Fits (N : ℕ) (tr : Transaction) : Prop where
  snoopsLines : tr.snoopsLines = true
  isUInt : tr.dataLength < 2 ^ 32
  /-- The ports of the interconnect are told from the ACE-Lite ports by their number. -/
  port : tr.portId < N ↔ tr.isACELite = false
  nonempty : 0 < tr.dataLength
  /-- A transaction other than a `ReadOnce` or `WriteUnique` is in a single line. -/
  single : tr.isReadOnce = true ∨ tr.isWriteUnique = true ∨ lineOfByte ls tr (tr.dataLength - 1) = ls.getTag tr.address
  /-- A `ReadOnce` does not reach the last line of the address space, unless it is for the whole line. -/
  below : tr.isReadOnce = true → tr.address.toNat + tr.dataLength + ls.size ≤ 2 ^ 64 ∨ ls.getTag tr.address = tr.address ∧ tr.dataLength = ls.size

/-- No snoop transaction is finalized during the loop, and of the data that ports have supplied for a line of a `ReadOnce`, the last is not dirty. -/
def StepOk (s : Engine N) : Action N → Prop
  | .finalize _ => s.looping = false
  | .snoopDone k => s.tr.isReadOnce = true → ∀ g ∈ s.snoops[k]?, g.endsDirty = false
  | _ => True

instance : ∀ (s : Engine N) (a : Action N), Decidable (StepOk s a)
  | s, .finalize _ => inferInstanceAs (Decidable (s.looping = false))
  | s, .snoopDone k => inferInstanceAs (Decidable (s.tr.isReadOnce = true → ∀ g ∈ s.snoops[k]?, g.endsDirty = false))
  | _, .generate | _, .answer .. | _, .dsGp .. => isTrue trivial

/-! ### The lines of a transaction -/

section Lines

variable {ls} {tr : Transaction}

theorem lineOfByte_eq_lineAt (tr : Transaction) (j : ℕ) :
    lineOfByte ls tr j = lineAt ls tr ((ls.getLineOffset tr.address + j) / ls.size) := Transaction.getTag_add ls tr.address j

theorem lineAt_inj (hlen : tr.dataLength < 2 ^ 32) (hpos : 0 < tr.dataLength) {i k : ℕ} (hi : i < tr.numSegments ls) (hk : k < tr.numSegments ls)
    (h : lineAt ls tr i = lineAt ls tr k) : i = k := by
  have ho := ls.getLineOffset_lt tr.address
  have hsz : ls.size ≤ 2 ^ 30 := Nat.pow_le_pow_right two_pos (Nat.le_of_lt_succ ls.isInt)
  have hdiv := Nat.div_mul_le_self (ls.getLineOffset tr.address + (tr.dataLength - 1)) ls.size
  rw [Transaction.numSegments_eq hlen hpos] at hi hk
  have hbound : ∀ m < (ls.getLineOffset tr.address + (tr.dataLength - 1)) / ls.size + 1, m * ls.size < 2 ^ 64 := fun m hm => by
    have hle := Nat.mul_le_mul_right ls.size (Nat.le_of_lt_succ hm)
    omega
  have hmul := congrArg BitVec.toNat ((BitVec.add_right_inj _).1 h)
  rw [BitVec.toNat_ofNat, BitVec.toNat_ofNat, Nat.mod_eq_of_lt (hbound i hi), Nat.mod_eq_of_lt (hbound k hk)] at hmul
  exact Nat.eq_of_mul_eq_mul_right ls.size_pos hmul

/-- Each line of the loop is that of some byte. -/
theorem exists_byte (hlen : tr.dataLength < 2 ^ 32) (hpos : 0 < tr.dataLength) {i : ℕ} (hi : i < tr.numSegments ls) :
    ∃ j < tr.dataLength, lineAt ls tr i = lineOfByte ls tr j := by
  have ho := ls.getLineOffset_lt tr.address
  rw [Transaction.numSegments_eq hlen hpos] at hi
  -- the first byte that the transaction has in the line
  refine ⟨i * ls.size - ls.getLineOffset tr.address, ?_, ?_⟩
  · have hmul := Nat.mul_le_mul_right ls.size (Nat.le_of_lt_succ hi)
    have hdiv := Nat.div_mul_le_self (ls.getLineOffset tr.address + (tr.dataLength - 1)) ls.size
    omega
  · rw [lineOfByte_eq_lineAt]
    congr 1
    rcases Nat.eq_zero_or_pos i with rfl | hpos'
    · rw [Nat.zero_mul, Nat.zero_sub, Nat.add_zero, Nat.div_eq_of_lt ho]
    · have hge := Nat.le_mul_of_pos_left ls.size hpos'
      rw [Nat.add_sub_cancel' (by omega), Nat.mul_div_cancel _ ls.size_pos]

theorem lineOfByte_eq_iff {j : ℕ} (hj : tr.address.toNat + j < 2 ^ 64) {line : Addr} (hline : ls.getTag line = line) :
    lineOfByte ls tr j = line ↔ line.toNat ≤ tr.address.toNat + j ∧ tr.address.toNat + j < line.toNat + ls.size := by
  have hsize : (2 : ℕ) ^ ls.bits = ls.size := rfl
  have hnat : (tr.address + BitVec.ofNat 64 j).toNat = tr.address.toNat + j := by
    rw [BitVec.toNat_add, BitVec.toNat_ofNat, Nat.add_mod_mod, Nat.mod_eq_of_lt hj]
  have htag : (lineOfByte ls tr j).toNat = (tr.address.toNat + j) / ls.size * ls.size := by
    rw [lineOfByte, LineSize.getTag, toNat_lineOf ls.bits_le, hnat, hsize]
  have hl : line.toNat / ls.size * ls.size = line.toNat := by
    conv_rhs => rw [← hline, LineSize.getTag, toNat_lineOf ls.bits_le, hsize]
  rw [← BitVec.toNat_inj, htag, ← hl]
  have hlo := Nat.div_mul_le_self (tr.address.toNat + j) ls.size
  have hhi := Nat.lt_div_mul_add ls.size_pos (a := tr.address.toNat + j)
  constructor
  · intro h
    omega
  · rintro ⟨h₁, h₂⟩
    have h₃ : line.toNat / ls.size ≤ (tr.address.toNat + j) / ls.size := (Nat.le_div_iff_mul_le ls.size_pos).2 h₁
    have h₄ : (tr.address.toNat + j) / ls.size < line.toNat / ls.size + 1 := by
      rw [Nat.div_lt_iff_lt_mul ls.size_pos, Nat.add_mul, Nat.one_mul]
      exact h₂
    rw [Nat.le_antisymm (Nat.le_of_lt_succ h₄) h₃]

/-- The bytes of a line that a transaction has: from where to where they are copied. -/
theorem copyRange_segment {line : Addr} (hbelow : tr.address.toNat + tr.dataLength < 2 ^ 64) (hend : line.toNat + ls.size < 2 ^ 64)
    (hlt : tr.address.toNat < line.toNat + ls.size) (hle : line.toNat ≤ tr.address.toNat + tr.dataLength) :
    copyRange line ls.size tr.address tr.dataLength =
      if line.toNat ≤ tr.address.toNat then
        ⟨tr.address.toNat - line.toNat, 0, min (line.toNat + ls.size - tr.address.toNat) tr.dataLength⟩
      else ⟨0, line.toNat - tr.address.toNat, min ls.size (tr.address.toNat + tr.dataLength - line.toNat)⟩ := by
  have hsum : ∀ (a : Addr) {n : ℕ}, a.toNat + n < 2 ^ 64 → (a + BitVec.ofNat 64 n).toNat = a.toNat + n := fun a n h => by
    rw [BitVec.toNat_add, BitVec.toNat_ofNat, Nat.add_mod_mod, Nat.mod_eq_of_lt h]
  have hsub : ∀ {a b : Addr}, b.toNat ≤ a.toNat → (a - b).toNat = a.toNat - b.toNat := fun h => BitVec.toNat_sub_of_le h
  have hsize := hsum line hend
  have hlen := hsum tr.address hbelow
  simp only [copyRange, BitVec.le_def, BitVec.lt_def, hsize, hlen, and_iff_left hlt]
  by_cases hfirst : line.toNat ≤ tr.address.toNat
  · simp only [if_pos hfirst, hsub hfirst]
    split
    · rename_i htrim
      rw [hsub (by omega), hsize, hlen, CopyRange.mk.injEq]
      omega
    · rw [CopyRange.mk.injEq]
      omega
  · simp only [if_neg hfirst, hsub (Nat.le_of_not_le hfirst)]
    split
    · rename_i htrim
      rw [hsub (by omega), hsize, hlen, CopyRange.mk.injEq]
      omega
    · rw [CopyRange.mk.injEq]
      omega

/-- **Copying a line** into the buffer of a transaction copies the bytes that the transaction has in it, and no others. -/
theorem copyData_segment {line : Addr} (hline : ls.getTag line = line) (src dst : ℕ → Byte)
    (hbelow : tr.address.toNat + tr.dataLength + ls.size ≤ 2 ^ 64 ∨ ls.getTag tr.address = tr.address ∧ tr.dataLength = ls.size)
    (hmeet : ∃ j < tr.dataLength, lineOfByte ls tr j = line) {j : ℕ} (hj : j < tr.dataLength) :
    copyData line src ls.size tr.address dst tr.dataLength j =
      if lineOfByte ls tr j = line then src (ls.getLineOffset (tr.address + BitVec.ofNat 64 j)) else dst j := by
  obtain ⟨j₀, hj₀, hmeet⟩ := hmeet
  have hsz := ls.size_pos
  rcases hbelow with hbelow | ⟨htag, hsize⟩
  · have hlo : ∀ i < tr.dataLength, tr.address.toNat + i < 2 ^ 64 := fun i hi => by omega
    obtain ⟨h₁, h₂⟩ := (lineOfByte_eq_iff (hlo j₀ hj₀) hline).1 hmeet
    have hoff : ls.getLineOffset (tr.address + BitVec.ofNat 64 j) = (tr.address.toNat + j) % ls.size := by
      rw [LineSize.getLineOffset, offsetOf_eq ls.bits_le, BitVec.toNat_add, BitVec.toNat_ofNat, Nat.add_mod_mod, Nat.mod_eq_of_lt (hlo j hj)]
      rfl
    have hmul : line.toNat = ls.size * (line.toNat / ls.size) := by
      conv_lhs => rw [← hline, LineSize.getTag, toNat_lineOf ls.bits_le]
      exact Nat.mul_comm ..
    -- the offset of a byte in the line
    have hbyte : line.toNat ≤ tr.address.toNat + j → tr.address.toNat + j < line.toNat + ls.size →
        (tr.address.toNat + j) % ls.size = tr.address.toNat + j - line.toNat := fun hle hlt => by
      have hj' : tr.address.toNat + j = ls.size * (line.toNat / ls.size) + (tr.address.toNat + j - line.toNat) := by omega
      rw [hj', Nat.mul_add_mod, Nat.mod_eq_of_lt (by omega), ← hj']
    rw [hoff, copyData, copyRange_segment (by omega) (by omega) (by omega) (by omega)]
    simp only [lineOfByte_eq_iff (hlo j hj) hline]
    by_cases hin : line.toNat ≤ tr.address.toNat + j ∧ tr.address.toNat + j < line.toNat + ls.size
    · rw [if_pos hin, hbyte hin.1 hin.2]
      by_cases hfirst : line.toNat ≤ tr.address.toNat
      · rw [if_pos hfirst, if_pos (by dsimp only; omega)]
        exact congrArg src (by dsimp only; omega)
      · rw [if_neg hfirst, if_pos (by dsimp only; omega)]
        exact congrArg src (by dsimp only; omega)
    · rw [if_neg hin]
      by_cases hfirst : line.toNat ≤ tr.address.toNat
      · rw [if_pos hfirst, if_neg (by dsimp only; omega)]
      · rw [if_neg hfirst, if_neg (by dsimp only; omega)]
  · -- the whole line
    have hin : ∀ i < tr.dataLength, lineOfByte ls tr i = tr.address ∧ ls.getLineOffset (tr.address + BitVec.ofNat 64 i) = i := fun i hi => by
      have hoff : offsetOf ls.bits tr.address + i < 2 ^ ls.bits := by
        rw [← htag, LineSize.getTag, offsetOf_lineOf ls.bits_le, Nat.zero_add]
        exact lt_of_lt_of_eq hi hsize
      refine ⟨(lineOf_add_of_offset ls.bits_le _ hoff).trans htag, (offsetOf_add_of_offset ls.bits_le _ hoff).trans ?_⟩
      rw [← htag, LineSize.getTag, offsetOf_lineOf ls.bits_le, Nat.zero_add]
    obtain rfl : tr.address = line := (hin j₀ hj₀).1.symm.trans hmeet
    rw [hsize, copyData_line, if_pos (hsize ▸ hj), if_pos (hin j hj).1, (hin j hj).2]

end Lines

/-! ### One snoop transaction -/

section Line

variable (tr : Transaction) (data : ℕ → Byte) (g : LineSnoop N)

/-- What holds of a snoop transaction. -/
structure LineOk : Prop where
  snoop : g.st.snoop = snoopOf tr.cmd
  dsRead : g.st.dsRead = tr.isReadOnce
  asked : g.asked = snoopedPorts forwardDVM tr
  masters : g.st.numMastersToSnoop = numMasters forwardDVM tr
  /-- All ports that have not answered are waited for. -/
  count : g.st.numPortsDone + g.ports.length = numMasters forwardDVM tr
  waits : g.stage = .snooping → g.ports ≠ []
  deleted : g.deleted = true → g.stage = .finalizing
  /-- A `ReadOnce` goes downstream unless the latest answer with data is clean, -/
  exec : tr.isReadOnce = true → (g.st.execDsGp = true ↔ ∀ gp, g.lastData = some gp → gp.genattr.dirty = true)
  /-- which it is if there is one. -/
  clean : tr.isReadOnce = true → g.stage = .downstream ∨ g.stage = .finalizing → ∀ gp, g.lastData = some gp → gp.genattr.dirty = false
  fetched : tr.isReadOnce = true → g.stage = .finalizing → g.lastData = none → g.fetched = some g.st.dsData
  supplied : tr.isReadOnce = true → ∀ gp, g.lastData = some gp → OnLine ls tr data g.st.addr gp.data
  read : tr.isReadOnce = true → g.deleted = true → g.lastData = none → OnLine ls tr data g.st.addr g.st.dsData

variable {ls} {forwardDVM} {tr} {data} {g} {data' : ℕ → Byte}

theorem OnLine.congr {line : Addr} {v : ℕ → Byte} (h : OnLine ls tr data line v)
    (heq : ∀ j < tr.dataLength, lineOfByte ls tr j = line → data' j = data j) : OnLine ls tr data' line v :=
  fun j hj hl => (heq j hj hl).trans (h j hj hl)

theorem LineOk.congr (h : LineOk ls forwardDVM tr data g) (heq : ∀ j < tr.dataLength, lineOfByte ls tr j = g.st.addr → data' j = data j) :
    LineOk ls forwardDVM tr data' g :=
  { h with
    supplied := fun hro gp hgp => (h.supplied hro gp hgp).congr heq
    read := fun hro hd hn => (h.read hro hd hn).congr heq }

theorem allowPassDirty_of_isReadOnce (h : tr.isReadOnce = true) : tr.allowPassDirty = false := by
  revert h
  unfold Transaction.isReadOnce Transaction.allowPassDirty
  cases tr.cmd with
  | read ar => cases ar <;> simp [allowPassDirtySnoop]
  | write | ignoreRead | ignoreWrite => simp

theorem snoopOf_of_isReadOnce (h : tr.isReadOnce = true) : snoopOf tr.cmd = .readOnce := by
  revert h
  unfold Transaction.isReadOnce
  cases hc : tr.cmd with
  | read ar => cases ar <;> simp [snoopOf]
  | write | ignoreRead | ignoreWrite => simp

theorem snoopOf_of_isWriteUnique (h : tr.isWriteUnique = true) : snoopOf tr.cmd = .cleanInvalid := by
  revert h
  unfold Transaction.isWriteUnique
  cases hc : tr.cmd with
  | write aw => cases aw <;> simp [snoopOf]
  | read | ignoreRead | ignoreWrite => simp

theorem not_isReadOnce_of_isWriteUnique (h : tr.isWriteUnique = true) : tr.isReadOnce = false := by
  revert h
  unfold Transaction.isWriteUnique Transaction.isReadOnce
  cases tr.cmd <;> simp

theorem lineOk_newSnoop (hports : (snoopedPorts forwardDVM tr).length = numMasters forwardDVM tr) {t : Transaction} (ht : t.ident = tr.ident)
    (i : ℕ) : LineOk ls forwardDVM tr data (newSnoop ls forwardDVM t i) := by
  have hro : t.isReadOnce = tr.isReadOnce := Transaction.isReadOnce_ident ht
  have hmasters : numMasters forwardDVM t = numMasters forwardDVM tr := (congrArg (numMasters forwardDVM) ht :)
  have hp : snoopedPorts forwardDVM t = snoopedPorts forwardDVM tr := (congrArg (snoopedPorts forwardDVM) ht :)
  have hcmd : t.cmd = tr.cmd := (congrArg Transaction.cmd ht :)
  refine ⟨congrArg snoopOf hcmd, hro, hp, hmasters, ?_, ?_, fun hd => (by cases hd), fun h => ?_, fun _ _ _ hgp => (by cases hgp), fun _ hst => ?_,
    fun _ _ hgp => (by cases hgp), fun _ hd => (by cases hd)⟩
  · show 0 + (snoopedPorts forwardDVM t).length = _
    rw [hp, hports, Nat.zero_add]
  · intro hst hnil
    have hnil : snoopedPorts forwardDVM tr = [] := hp.symm.trans hnil
    rw [hnil, List.length_nil, ← hmasters] at hports
    simp [newSnoop, mk', snoopDone, ← hports] at hst
  · exact iff_of_true (hro.trans h) fun _ hgp => (by cases hgp)
  · revert hst
    simp only [newSnoop]
    split <;> exact fun hst => (by cases hst)

theorem LineOk.answer (h : LineOk ls forwardDVM tr data g) (hfits : Fits ls N tr) {t : Transaction} (ht : t.ident = tr.ident) (hd : t.data = data)
    (hline : ls.getTag g.st.addr = g.st.addr) (hmeet : ∃ j < tr.dataLength, lineOfByte ls tr j = g.st.addr) (hst : g.stage = .snooping) {port : Fin N}
    (hport : port ∈ g.ports) (gp : SnoopGp) :
    LineOk ls forwardDVM tr (portDone ls t g.st gp).1.data { g with
      st := (portDone ls t g.st gp).2
      ports := g.ports.erase port
      stage := if (portDone ls t g.st gp).2.snoopDone then .snooped else .snooping
      answers := gp :: g.answers } := by
  have hcount : g.st.numPortsDone + 1 + (g.ports.erase port).length = numMasters forwardDVM tr := by
    have hpos := List.length_pos_of_mem hport
    rw [List.length_erase_of_mem hport, ← h.count]
    omega
  have hro : t.isReadOnce = tr.isReadOnce := Transaction.isReadOnce_ident ht
  have hlast : ∀ {g' : LineSnoop N}, g'.answers = gp :: g.answers →
      g'.lastData = if gp.genattr.datatransfer = true then some gp else g.lastData := fun heq => by
    rw [LineSnoop.lastData, heq, List.find?_cons]
    cases gp.genattr.datatransfer <;> rfl
  have hnot : ∀ {p : Stage}, p ≠ .snooping → p ≠ .snooped →
      (if (portDone ls t g.st gp).2.snoopDone = true then Stage.snooped else .snooping) ≠ p := fun h₁ h₂ => by
    split
    · exact h₂.symm
    · exact h₁.symm
  refine ⟨h.snoop, h.dsRead, h.asked, h.masters, hcount, fun hs hnil => ?_, fun hd => ?_, fun hr => ?_, fun _ hs => ?_, fun _ hs => ?_,
    fun hr gp' hgp' => ?_, fun _ hd => ?_⟩
  · -- the last port has answered
    have hdone : (portDone ls t g.st gp).2.snoopDone = true := by
      rw [show g.ports.erase port = [] from hnil, List.length_nil, Nat.add_zero, ← h.masters] at hcount
      exact decide_eq_true hcount
    dsimp only at hs
    rw [if_pos hdone] at hs
    cases hs
  · rw [h.deleted hd] at hst
    cases hst
  · have hallow : t.allowPassDirty = false := allowPassDirty_of_isReadOnce (hro.trans hr)
    rw [hlast rfl]
    simp only [portDone, hallow, hro, hr, Bool.not_false, Bool.and_true]
    cases hdt : gp.genattr.datatransfer
    · simpa using h.exec hr
    · cases hdirty : gp.genattr.dirty <;> simp [hdirty]
  · exact absurd hs (by rintro (hs | hs) <;> exact hnot (by decide) (by decide) hs)
  · exact absurd hs (hnot (by decide) (by decide))
  · rw [hlast rfl] at hgp'
    have hread : g.st.snoop.isReadSnoop = true := by
      rw [h.snoop, snoopOf_of_isReadOnce hr]
      rfl
    have haddr : t.address = tr.address := (congrArg Transaction.address ht :)
    have hlen : t.dataLength = tr.dataLength := (congrArg Transaction.dataLength ht :)
    simp only [portDone, hread, Bool.and_true, haddr, hlen, hd]
    split at hgp'
    · rename_i hdt
      obtain rfl := Option.some.inj hgp'
      intro j hj hl
      rw [if_pos hdt, copyData_segment hline _ _ (hfits.below hr) hmeet hj, if_pos hl]
    · rename_i hdt
      rw [if_neg hdt]
      exact h.supplied hr gp' hgp'
  · rw [h.deleted hd] at hst
    cases hst

theorem LineOk.snoopDone (h : LineOk ls forwardDVM tr data g) (hst : g.stage = .snooped)
    (hclean : tr.isReadOnce = true → ∀ gp, g.lastData = some gp → gp.genattr.dirty = false) :
    LineOk ls forwardDVM tr data { g with stage := if g.st.execDsGp then .downstream else .finalizing } := by
  refine ⟨h.snoop, h.dsRead, h.asked, h.masters, h.count, fun hs => ?_, fun hd => ?_, h.exec, fun hr _ => hclean hr, fun hr hs hn => ?_, h.supplied,
    fun hr hd hn => ?_⟩
  · revert hs
    dsimp only
    split <;> exact fun hs => (by cases hs)
  · rw [h.deleted hd] at hst
    cases hst
  · -- without data from a port it goes downstream
    have hexec : g.st.execDsGp = true := (h.exec hr).2 fun gp hgp => by
      rw [show g.lastData = none from hn] at hgp
      cases hgp
    dsimp only at hs
    rw [if_pos hexec] at hs
    cases hs
  · rw [h.deleted hd] at hst
    cases hst

theorem LineOk.dsGp (h : LineOk ls forwardDVM tr data g) (hst : g.stage = .downstream) (v : ℕ → Byte) (response : Response) :
    LineOk ls forwardDVM tr data { g with
      st := { g.st with dsData := if g.st.dsRead then v else g.st.dsData, dsResponse := response }
      stage := .finalizing
      fetched := if g.st.dsRead then some v else none } := by
  refine ⟨h.snoop, h.dsRead, h.asked, h.masters, h.count, fun hs => (by cases hs), fun _ => rfl, h.exec, fun hr _ => h.clean hr (.inl hst),
    fun hr _ _ => ?_, h.supplied, fun hr hd hn => ?_⟩
  · rw [← h.dsRead] at hr
    dsimp only
    rw [if_pos hr, if_pos hr]
  · rw [h.deleted hd] at hst
    cases hst

theorem LineOk.finalize (h : LineOk ls forwardDVM tr data g) (hfits : Fits ls N tr) {s : Engine N} (ht : s.tr.ident = tr.ident) (hd : s.tr.data = data)
    (hline : ls.getTag g.st.addr = g.st.addr) (hmeet : ∃ j < tr.dataLength, lineOfByte ls tr j = g.st.addr) (hst : g.stage = .finalizing) :
    LineOk ls forwardDVM tr (s.dsGpDone ls g.st).data { g with deleted := true } := by
  have hro : s.tr.isReadOnce = tr.isReadOnce := Transaction.isReadOnce_ident ht
  have haddr : s.tr.address = tr.address := (congrArg Transaction.address ht :)
  have hlen : s.tr.dataLength = tr.dataLength := (congrArg Transaction.dataLength ht :)
  -- data that a port has supplied stays
  have hkeep : tr.isReadOnce = true → ∀ gp, g.lastData = some gp → (s.dsGpDone ls g.st).data = data := fun hr gp hgp => by
    have hexec : ¬(g.st.execDsGp && s.tr.isReadOnce) = true := fun hx => by
      have hdirty := (h.exec hr).1 (Bool.and_eq_true_iff.1 hx).1 gp hgp
      rw [h.clean hr (.inr hst) gp hgp] at hdirty
      cases hdirty
    rw [Engine.dsGpDone, if_neg hexec, hd]
  refine ⟨h.snoop, h.dsRead, h.asked, h.masters, h.count, h.waits, fun _ => hst, h.exec, h.clean, h.fetched, fun hr gp hgp => ?_, fun hr _ hn => ?_⟩
  · rw [hkeep hr gp hgp]
    exact h.supplied hr gp hgp
  · have hexec : g.st.execDsGp = true := (h.exec hr).2 fun gp hgp => by
      rw [show g.lastData = none from hn] at hgp
      cases hgp
    intro j hj hl
    rw [Engine.dsGpDone, if_pos (by rw [hexec, hro, hr]; rfl), haddr, hlen]
    dsimp only
    rw [copyData_segment hline _ _ (hfits.below hr) hmeet hj, if_pos hl]

end Line

/-! ### The whole transaction -/

section Run

variable {ls} {forwardDVM} {tr : Transaction} {s s' : Engine N} {k : ℕ} {g g' : LineSnoop N}

namespace Fits

variable (h : Fits ls N tr)

include h

/-- As many ports are snooped as answers are waited for. -/
theorem length_ports : (snoopedPorts forwardDVM tr).length = numMasters forwardDVM tr := by
  have hdvm : tr.isDVM = false := by
    have hs := h.snoopsLines
    rw [Transaction.snoopsLines, Bool.and_eq_true, Bool.not_eq_true'] at hs
    exact hs.2
  have hports : snoopedPorts forwardDVM tr = (List.finRange N).filter fun i => decide (i.val ≠ tr.portId) := by
    simp only [snoopedPorts, hdvm, Bool.false_and, Bool.not_false, Bool.true_and]
  rw [hports, numMasters, hdvm, if_neg Bool.false_ne_true]
  cases hlite : tr.isACELite with
  | true =>
    have hge : N ≤ tr.portId := Nat.le_of_not_lt fun hlt => by
      rw [h.port.1 hlt] at hlite
      cases hlite
    rw [List.filter_eq_self.2 fun i _ => decide_eq_true (by omega), List.length_finRange, if_pos rfl]
  | false =>
    have hlt : tr.portId < N := h.port.2 hlite
    have herase : (List.finRange N).filter (fun i => decide (i.val ≠ tr.portId)) = (List.finRange N).erase ⟨tr.portId, hlt⟩ := by
      rw [(List.nodup_finRange N).erase_eq_filter]
      exact List.filter_congr fun i _ => by rw [Bool.eq_iff_iff]; simp [Fin.ext_iff]
    rw [herase, List.length_erase_of_mem (List.mem_finRange _), List.length_finRange, if_neg Bool.false_ne_true]

theorem numSegments_pos : 0 < tr.numSegments ls := by
  rw [Transaction.numSegments_eq h.isUInt h.nonempty]
  exact Nat.succ_pos _

theorem numSegments_single (hro : tr.isReadOnce = false) (hwu : tr.isWriteUnique = false) : tr.numSegments ls = 1 := by
  have hsame : lineOfByte ls tr (tr.dataLength - 1) = ls.getTag tr.address := by
    rcases h.single with hs | hs | hs
    · rw [hro] at hs
      cases hs
    · rw [hwu] at hs
      cases hs
    · exact hs
  have hnum : tr.numSegments ls = _ := Transaction.numSegments_eq h.isUInt h.nonempty
  have hfirst : ls.getTag tr.address = lineAt ls tr 0 := by simp [lineAt]
  rw [lineOfByte_eq_lineAt, hfirst] at hsame
  rw [hnum, lineAt_inj h.isUInt h.nonempty (hnum ▸ Nat.lt_succ_self _) h.numSegments_pos hsame]

end Fits

/-- How many snoop transactions are finalized. -/
def Engine.deletedCount (s : Engine N) : ℕ := s.snoops.countP fun g => g.deleted

variable (ls forwardDVM tr s) in
/-- The invariant. -/
structure Inv : Prop where
  ident : s.tr.ident = tr.ident
  segments : s.tr.nSegments + (if (tr.isReadOnce || tr.isWriteUnique) = true then s.deletedCount else 0) = tr.numSegments ls
  length : s.snoops.length ≤ tr.numSegments ls
  ended : s.looping = false → s.snoops.length = tr.numSegments ls
  early : s.looping = true → ∀ g ∈ s.snoops, g.deleted = false
  addr : ∀ k g, s.snoops[k]? = some g → g.st.addr = lineAt ls tr k
  line : ∀ g ∈ s.snoops, LineOk ls forwardDVM tr s.tr.data g
  finalized : s.finalized = if s.deletedCount = tr.numSegments ls then 1 else 0
  kept : tr.isWriteUnique = true → s.tr.data = tr.data

theorem inv_start (h : Fits ls N tr) : Inv ls forwardDVM tr (Engine.start (N := N) ls tr) where
  ident := rfl
  segments := by
    show tr.numSegments ls + (if _ then 0 else 0) = _
    rw [ite_self, Nat.add_zero]
  length := Nat.zero_le _
  ended hl := by cases hl
  early _ g hg := absurd hg List.not_mem_nil
  addr k g hk := by cases hk
  line g hg := absurd hg List.not_mem_nil
  finalized := (if_neg h.numSegments_pos.ne).symm
  kept _ := rfl

theorem lineAt_aligned (tr : Transaction) (i : ℕ) : ls.getTag (lineAt ls tr i) = lineAt ls tr i := lineOf_add_mul ls.bits_le tr.address i

theorem Inv.lt (h : Inv ls forwardDVM tr s) (hk : s.snoops[k]? = some g) : k < tr.numSegments ls :=
  lt_of_lt_of_le (List.getElem?_eq_some_iff.1 hk).1 h.length

/-- One snoop transaction goes on, and the data changes in its line only. -/
theorem Inv.line_set (h : Inv ls forwardDVM tr s) (hfits : Fits ls N tr) (hk : s.snoops[k]? = some g) {data' : ℕ → Byte}
    (hg' : LineOk ls forwardDVM tr data' g') (hoff : ∀ j < tr.dataLength, lineOfByte ls tr j ≠ g.st.addr → data' j = s.tr.data j) :
    ∀ g₁ ∈ s.snoops.set k g', LineOk ls forwardDVM tr data' g₁ := by
  intro g₁ hg₁
  obtain ⟨i, hi⟩ := List.mem_iff_getElem?.1 hg₁
  rw [List.getElem?_set] at hi
  split at hi
  · split at hi
    · exact Option.some.inj hi ▸ hg'
    · cases hi
  · rename_i hne
    refine (h.line g₁ (List.mem_of_getElem? hi)).congr fun j hj hl => hoff j hj fun heq => hne ?_
    rw [hl, h.addr i g₁ hi, h.addr k g hk] at heq
    exact (lineAt_inj hfits.isUInt hfits.nonempty (h.lt hi) (h.lt hk) heq).symm

theorem addr_set (h : Inv ls forwardDVM tr s) (hk : s.snoops[k]? = some g) (haddr : g'.st.addr = g.st.addr) :
    ∀ i g₁, (s.snoops.set k g')[i]? = some g₁ → g₁.st.addr = lineAt ls tr i := by
  intro i g₁ hi
  rw [List.getElem?_set] at hi
  split at hi
  · rename_i hik
    split at hi
    · rw [← Option.some.inj hi, haddr, ← hik]
      exact h.addr k g hk
    · cases hi
  · exact h.addr i g₁ hi

theorem deletedCount_set (hk : s.snoops[k]? = some g) (hd : g.deleted = false) (g' : LineSnoop N) :
    (s.snoops.set k g').countP (fun g => g.deleted) = s.deletedCount + if g'.deleted = true then 1 else 0 := by
  obtain ⟨hlt, hget⟩ := List.getElem?_eq_some_iff.1 hk
  rw [List.countP_set hlt, hget, hd, if_neg Bool.false_ne_true, Nat.sub_zero]
  rfl

/-- A snoop transaction that is not deleted goes on, and the transaction is answered by it. -/
theorem Inv.goOn (h : Inv ls forwardDVM tr s) (hfits : Fits ls N tr) (hk : s.snoops[k]? = some g) {t : Transaction}
    (hg' : LineOk ls forwardDVM tr t.data g') (hd : g.deleted = false) (hd' : g'.deleted = false) (haddr : g'.st.addr = g.st.addr)
    (ht : t.ident = tr.ident) (hn : t.nSegments = s.tr.nSegments) (hoff : ∀ j < tr.dataLength, lineOfByte ls tr j ≠ g.st.addr → t.data j = s.tr.data j)
    (hkept : tr.isWriteUnique = true → t.data = s.tr.data) : Inv ls forwardDVM tr { s with tr := t, snoops := s.snoops.set k g' } := by
  have hcount : (s.snoops.set k g').countP (fun g => g.deleted) = s.deletedCount := by
    rw [deletedCount_set hk hd, hd', if_neg Bool.false_ne_true, Nat.add_zero]
  refine ⟨ht, ?_, ?_, fun hl => ?_, fun hl g₁ hg₁ => ?_, addr_set h hk haddr, h.line_set hfits hk hg' hoff, ?_, fun hw => (hkept hw).trans (h.kept hw)⟩
  · show t.nSegments + (if _ then (s.snoops.set k g').countP _ else 0) = _
    rw [hn, hcount]
    exact h.segments
  · show (s.snoops.set k g').length ≤ _
    rw [List.length_set]
    exact h.length
  · show (s.snoops.set k g').length = _
    rw [List.length_set]
    exact h.ended hl
  · rcases List.mem_or_eq_of_mem_set hg₁ with hg₁ | rfl
    · exact h.early hl g₁ hg₁
    · exact hd'
  · show s.finalized = if (s.snoops.set k g').countP _ = _ then 1 else 0
    rw [hcount]
    exact h.finalized

theorem Inv.generate (h : Inv ls forwardDVM tr s) (hfits : Fits ls N tr) (hl : s.looping = true) :
    Inv ls forwardDVM tr (if s.snoops.length < s.tr.nSegments then { s with snoops := s.snoops ++ [newSnoop ls forwardDVM s.tr s.snoops.length] }
      else { s with looping := false }) := by
  have hnone : s.deletedCount = 0 := List.countP_eq_zero.2 fun g hg => by
    rw [h.early hl g hg]
    exact Bool.false_ne_true
  have hn : s.tr.nSegments = tr.numSegments ls := by
    have hs := h.segments
    rwa [hnone, ite_self, Nat.add_zero] at hs
  rw [hn]
  split
  · rename_i hlt
    have hnew : (newSnoop ls forwardDVM s.tr s.snoops.length).deleted = false := rfl
    have hcount : (s.snoops ++ [newSnoop ls forwardDVM s.tr s.snoops.length]).countP (fun g => g.deleted) = s.deletedCount := by
      rw [List.countP_append, List.countP_singleton, hnew]
      rfl
    refine ⟨h.ident, ?_, ?_, fun hl' => ?_, fun _ g hg => ?_, fun k g hk => ?_, fun g hg => ?_, ?_, h.kept⟩
    · show s.tr.nSegments + (if _ then (s.snoops ++ [_]).countP _ else 0) = _
      rw [hcount]
      exact h.segments
    · show (s.snoops ++ [_]).length ≤ _
      rw [List.length_append]
      exact hlt
    · exact absurd (hl'.symm.trans hl) Bool.false_ne_true
    · rcases List.mem_append.1 hg with hg | hg
      · exact h.early hl g hg
      · exact List.mem_singleton.1 hg ▸ hnew
    · rcases Nat.lt_or_ge k s.snoops.length with hlt' | hge
      · rw [List.getElem?_append_left hlt'] at hk
        exact h.addr k g hk
      · rw [List.getElem?_append_right hge] at hk
        have hone := (List.getElem?_eq_some_iff.1 hk).1
        rw [List.length_singleton] at hone
        obtain rfl : k = s.snoops.length := by omega
        rw [Nat.sub_self] at hk
        obtain rfl := Option.some.inj hk
        exact (congrArg (fun t => lineAt ls t s.snoops.length) h.ident :)
    · rcases List.mem_append.1 hg with hg | hg
      · exact h.line g hg
      · obtain rfl := List.mem_singleton.1 hg
        exact lineOk_newSnoop hfits.length_ports h.ident _
    · show s.finalized = if (s.snoops ++ [_]).countP _ = _ then 1 else 0
      rw [hcount]
      exact h.finalized
  · rename_i hge
    exact { h with ended := fun _ => Nat.le_antisymm h.length (Nat.le_of_not_lt hge), early := fun hl' => (by cases hl') }

theorem finalizeTr_finalized (s : Engine N) (t : Transaction) : (s.finalizeTr t).finalized = s.finalized + 1 ∧ (s.finalizeTr t).tr = t ∧
    (s.finalizeTr t).snoops = s.snoops ∧ (s.finalizeTr t).looping = s.looping := by
  unfold Engine.finalizeTr Engine.finalized
  split
  · exact ⟨by dsimp only; omega, rfl, rfl, rfl⟩
  · exact ⟨by dsimp only; omega, rfl, rfl, rfl⟩

/-- The line of a snoop transaction is one of the transaction. -/
theorem Inv.meets (h : Inv ls forwardDVM tr s) (hfits : Fits ls N tr) (hk : s.snoops[k]? = some g) :
    ls.getTag g.st.addr = g.st.addr ∧ ∃ j < tr.dataLength, lineOfByte ls tr j = g.st.addr := by
  rw [h.addr k g hk]
  obtain ⟨j, hj, hb⟩ := exists_byte hfits.isUInt hfits.nonempty (h.lt hk)
  exact ⟨lineAt_aligned tr k, j, hj, hb.symm⟩

/-- What `finalize_snoop_tr` does to the count of segments, and how often it finalizes the transaction. -/
theorem finalizeSnoopTr_spec (s : Engine N) (t : Transaction) (st : SnoopTransaction) :
    (s.finalizeSnoopTr t st).tr.ident = t.ident ∧ (s.finalizeSnoopTr t st).tr.data = t.data ∧ (s.finalizeSnoopTr t st).snoops = s.snoops ∧
      (s.finalizeSnoopTr t st).looping = s.looping ∧
      (s.finalizeSnoopTr t st).tr.nSegments = t.nSegments - (if (t.isReadOnce || t.isWriteUnique) = true then 1 else 0) ∧
      (s.finalizeSnoopTr t st).finalized = s.finalized + if (t.isReadOnce || t.isWriteUnique) = true ∧ t.nSegments - 1 ≠ 0 then 0 else 1 := by
  have hall : (Engine.allReceived (Engine.segmentDone t st)).ident = t.ident ∧ (Engine.allReceived (Engine.segmentDone t st)).data = t.data ∧
      (Engine.allReceived (Engine.segmentDone t st)).nSegments = t.nSegments - 1 := by
    unfold Engine.allReceived
    split <;> exact ⟨rfl, rfl, rfl⟩
  unfold Engine.finalizeSnoopTr
  by_cases hseg : (t.isReadOnce || t.isWriteUnique) = true
  · by_cases hne : (Engine.segmentDone t st).nSegments ≠ 0
    · rw [if_pos hseg, if_pos hne, if_pos hseg, if_pos ⟨hseg, hne⟩]
      exact ⟨rfl, rfl, rfl, rfl, rfl, rfl⟩
    · obtain ⟨hf, ht, hs, hl⟩ := finalizeTr_finalized s (Engine.allReceived (Engine.segmentDone t st))
      rw [if_pos hseg, if_neg hne, if_pos hseg, if_neg fun hc => hne hc.2, hf, ht, hs, hl]
      exact ⟨hall.1, hall.2.1, rfl, rfl, hall.2.2, rfl⟩
  · obtain ⟨hf, ht, hs, hl⟩ := finalizeTr_finalized s t
    rw [if_neg hseg, if_neg hseg, if_neg fun hc => hseg hc.1, hf, ht, hs, hl]
    exact ⟨rfl, rfl, rfl, rfl, rfl, rfl⟩

/-- The end of a snoop transaction after the loop. -/
theorem Inv.finalize (h : Inv ls forwardDVM tr s) (hfits : Fits ls N tr) (hl : s.looping = false) (hk : s.snoops[k]? = some g)
    (hst : g.stage = .finalizing) (hd : g.deleted = false) :
    Inv ls forwardDVM tr ({ s with snoops := s.snoops.set k { g with deleted := true } }.finalizeSnoopTr (s.dsGpDone ls g.st) g.st) := by
  have hmem := List.mem_of_getElem? hk
  obtain ⟨hline, hmeet⟩ := h.meets hfits hk
  -- the transaction, with the data that was fetched for it
  have hident : (s.dsGpDone ls g.st).ident = tr.ident := by
    unfold Engine.dsGpDone
    split
    · exact h.ident
    · exact h.ident
  have hn : (s.dsGpDone ls g.st).nSegments = s.tr.nSegments := by
    unfold Engine.dsGpDone
    split <;> rfl
  have hro : (s.dsGpDone ls g.st).isReadOnce = tr.isReadOnce := Transaction.isReadOnce_ident hident
  have hwu : (s.dsGpDone ls g.st).isWriteUnique = tr.isWriteUnique := Transaction.isWriteUnique_ident hident
  have haddress : s.tr.address = tr.address := (congrArg Transaction.address h.ident :)
  have hlength : s.tr.dataLength = tr.dataLength := (congrArg Transaction.dataLength h.ident :)
  have hoff : ∀ j < tr.dataLength, lineOfByte ls tr j ≠ g.st.addr → (s.dsGpDone ls g.st).data j = s.tr.data j := fun j hj hne => by
    unfold Engine.dsGpDone
    split
    · rename_i hx
      have hr : tr.isReadOnce = true := (Transaction.isReadOnce_ident h.ident).symm.trans (Bool.and_eq_true_iff.1 hx).2
      dsimp only
      rw [haddress, hlength, copyData_segment hline _ _ (hfits.below hr) hmeet hj, if_neg hne]
    · rfl
  have hcount : (s.snoops.set k { g with deleted := true }).countP (fun g => g.deleted) = s.deletedCount + 1 := deletedCount_set hk hd _
  have hlt : s.deletedCount < tr.numSegments ls := by
    rw [← h.ended hl]
    refine lt_of_le_of_ne List.countP_le_length fun heq => ?_
    rw [List.countP_eq_length.1 heq g hmem] at hd
    cases hd
  obtain ⟨hident', hdata', hsnoops', hloop', hn', hfin'⟩ :=
    finalizeSnoopTr_spec { s with snoops := s.snoops.set k { g with deleted := true } } (s.dsGpDone ls g.st) g.st
  have hcount' : ({ s with snoops := s.snoops.set k { g with deleted := true } }.finalizeSnoopTr (s.dsGpDone ls g.st) g.st).deletedCount =
      s.deletedCount + 1 := by
    rw [Engine.deletedCount, hsnoops']
    exact hcount
  have hseg := h.segments
  refine ⟨hident'.trans hident, ?_, ?_, fun _ => ?_, fun hl' => ?_, ?_, ?_, ?_, fun hw => ?_⟩
  · rw [hn', hcount', hro, hwu, hn]
    split
    · rename_i hc
      rw [if_pos hc] at hseg
      omega
    · rename_i hc
      rw [if_neg hc] at hseg
      exact hseg
  · rw [hsnoops', List.length_set]
    exact h.length
  · rw [hsnoops', List.length_set]
    exact h.ended hl
  · rw [hloop', hl] at hl'
    cases hl'
  · rw [hsnoops']
    exact addr_set h hk rfl
  · rw [hsnoops', hdata']
    exact h.line_set hfits hk ((h.line g hmem).finalize hfits h.ident rfl hline hmeet hst) hoff
  · -- it was not finalized before
    have hbefore : s.finalized = 0 := h.finalized.trans (if_neg hlt.ne)
    rw [hfin', hcount', hro, hwu, hn]
    show s.finalized + _ = _
    rw [hbefore, Nat.zero_add]
    by_cases hc : (tr.isReadOnce || tr.isWriteUnique) = true
    · rw [if_pos hc] at hseg
      by_cases hlast : s.deletedCount + 1 = tr.numSegments ls
      · rw [if_neg (by rintro ⟨-, hne⟩; omega), if_pos hlast]
      · rw [if_pos ⟨hc, by omega⟩, if_neg hlast]
    · have hc' := hc
      rw [Bool.or_eq_true, not_or, Bool.not_eq_true, Bool.not_eq_true] at hc'
      have hone := hfits.numSegments_single hc'.1 hc'.2
      rw [if_neg fun hx => hc hx.1, if_pos (by omega)]
  · rw [hdata', Engine.dsGpDone, if_neg]
    · exact h.kept hw
    · rw [Transaction.isReadOnce_ident h.ident, not_isReadOnce_of_isWriteUnique hw, Bool.and_false]
      exact Bool.false_ne_true

theorem Inv.answer (h : Inv ls forwardDVM tr s) (hfits : Fits ls N tr) (hk : s.snoops[k]? = some g) (hst : g.stage = .snooping) {port : Fin N}
    (hport : port ∈ g.ports) (gp : SnoopGp) :
    Inv ls forwardDVM tr { s with
      tr := (portDone ls s.tr g.st gp).1
      snoops := s.snoops.set k { g with
        st := (portDone ls s.tr g.st gp).2
        ports := g.ports.erase port
        stage := if (portDone ls s.tr g.st gp).2.snoopDone then .snooped else .snooping
        answers := gp :: g.answers } } := by
  have hok := h.line g (List.mem_of_getElem? hk)
  have hd : g.deleted = false := Bool.eq_false_iff.2 fun hd => by
    rw [hok.deleted hd] at hst
    cases hst
  obtain ⟨hline, hmeet⟩ := h.meets hfits hk
  have haddress : s.tr.address = tr.address := (congrArg Transaction.address h.ident :)
  have hlength : s.tr.dataLength = tr.dataLength := (congrArg Transaction.dataLength h.ident :)
  have hident : (portDone ls s.tr g.st gp).1.ident = tr.ident := (Transaction.ident_congr portDone_request).trans h.ident
  refine h.goOn hfits hk (hok.answer hfits h.ident rfl hline hmeet hst hport gp) hd hd rfl hident rfl (fun j hj hne => ?_) fun hw => ?_
  · simp only [portDone]
    split
    · rw [haddress, hlength]
      cases hro : tr.isReadOnce with
      | true => rw [copyData_segment hline _ _ (hfits.below hro) hmeet hj, if_neg hne]
      | false =>
        cases hwu : tr.isWriteUnique with
        | true =>
          rename_i hread
          rw [hok.snoop, snoopOf_of_isWriteUnique hwu] at hread
          exact absurd (Bool.and_eq_true_iff.1 hread).2 (by decide)
        | false =>
          -- there is only one line
          have hk0 : k = 0 := Nat.lt_one_iff.1 (hfits.numSegments_single hro hwu ▸ h.lt hk)
          have hzero : (ls.getLineOffset tr.address + j) / ls.size = 0 := by
            have hone := hfits.numSegments_single hro hwu
            rw [Transaction.numSegments_eq hfits.isUInt hfits.nonempty] at hone
            exact Nat.le_zero.1 ((Nat.div_le_div_right (by omega)).trans (Nat.succ.inj hone).le)
          exact absurd (by rw [lineOfByte_eq_lineAt, hzero, h.addr k g hk, hk0]) hne
    · rfl
  · have hread : g.st.snoop.isReadSnoop = false := by
      rw [hok.snoop, snoopOf_of_isWriteUnique hw]
      rfl
    simp only [portDone, hread, Bool.and_false, Bool.false_eq_true, if_false]

/-- **What a step preserves.** -/
theorem Inv.step (h : Inv ls forwardDVM tr s) (hfits : Fits ls N tr) {a : Action N} (hok : StepOk s a) (hs : s.step ls forwardDVM a = some s') :
    Inv ls forwardDVM tr s' := by
  have hnot : ∀ {g : LineSnoop N}, g ∈ s.snoops → g.stage ≠ .finalizing → g.deleted = false := fun hg hst =>
    Bool.eq_false_iff.2 fun hd => hst ((h.line _ hg).deleted hd)
  cases a with
  | generate =>
    simp only [Engine.step] at hs
    split at hs
    · rename_i hl
      rw [← Option.some.inj hs]
      exact h.generate hfits hl
    · cases hs
  | answer k port gp =>
    obtain ⟨g, hk, hs⟩ := Option.bind_eq_some_iff.1 hs
    split at hs
    · rename_i hen
      rw [← Option.some.inj hs]
      exact h.answer hfits hk hen.2.1 hen.2.2 gp
    · cases hs
  | snoopDone k =>
    obtain ⟨g, hk, hs⟩ := Option.bind_eq_some_iff.1 hs
    split at hs
    · rename_i hen
      rw [← Option.some.inj hs]
      have hmem := List.mem_of_getElem? hk
      have hd := hnot hmem (by rw [hen.2]; decide)
      refine h.goOn hfits hk ((h.line g hmem).snoopDone hen.2 fun hr => ?_) hd hd rfl h.ident rfl (fun _ _ _ => rfl) fun _ => rfl
      intro gp hgp
      have hclean := hok ((Transaction.isReadOnce_ident h.ident).trans hr) g hk
      rw [LineSnoop.endsDirty, hgp, Option.any_some] at hclean
      exact hclean
    · cases hs
  | dsGp k data response =>
    obtain ⟨g, hk, hs⟩ := Option.bind_eq_some_iff.1 hs
    split at hs
    · rename_i hen
      rw [← Option.some.inj hs]
      have hmem := List.mem_of_getElem? hk
      have hd := hnot hmem (by rw [hen.2]; decide)
      exact h.goOn hfits hk ((h.line g hmem).dsGp hen.2 data response) hd hd rfl h.ident rfl (fun _ _ _ => rfl) fun _ => rfl
    · cases hs
  | finalize k =>
    obtain ⟨g, hk, hs⟩ := Option.bind_eq_some_iff.1 hs
    split at hs
    · rename_i hen
      rw [← Option.some.inj hs]
      exact h.finalize hfits hok hk hen.2.1 hen.2.2
    · cases hs

/-! ### What is assembled -/

theorem Inv.deletedCount_eq_iff (h : Inv ls forwardDVM tr s) (hpos : 0 < tr.numSegments ls) :
    s.deletedCount = tr.numSegments ls ↔ s.looping = false ∧ ∀ g ∈ s.snoops, g.deleted = true := by
  constructor
  · intro hall
    have hlen : s.deletedCount = s.snoops.length := Nat.le_antisymm List.countP_le_length (hall ▸ h.length)
    have hdel := List.countP_eq_length.1 hlen
    refine ⟨Bool.eq_false_iff.2 fun hl => ?_, hdel⟩
    obtain ⟨g, hg⟩ := List.exists_mem_of_length_pos (l := s.snoops) (by omega)
    exact absurd ((h.early hl g hg).symm.trans (hdel g hg)) Bool.false_ne_true
  · rintro ⟨hl, hdel⟩
    rw [← h.ended hl]
    exact List.countP_eq_length.2 hdel

/-- Something is left to do for a snoop transaction that is not finalized. -/
theorem exists_step (h : Inv ls forwardDVM tr s) (hl : s.looping = false) (hk : s.snoops[k]? = some g) (hd : g.deleted = false) :
    ∃ a, (s.step ls forwardDVM a).isSome = true := by
  have hy : s.yields forwardDVM = true := by rw [Engine.yields, hl]; rfl
  cases hst : g.stage with
  | snooping =>
    obtain ⟨port, hport⟩ := List.exists_mem_of_ne_nil _ ((h.line g (List.mem_of_getElem? hk)).waits hst)
    exact ⟨.answer k port ⟨fun _ => 0, {}, .incomplete⟩, by simp [Engine.step, hk, hy, hst, hport]⟩
  | snooped => exact ⟨.snoopDone k, by simp [Engine.step, hk, hy, hst]⟩
  | downstream => exact ⟨.dsGp k (fun _ => 0) .ok, by simp [Engine.step, hk, hy, hst]⟩
  | finalizing => exact ⟨.finalize k, by simp [Engine.step, hk, hy, hst, hd]⟩

/-- **The invariant says what is assembled.** -/
theorem Inv.assembled (h : Inv ls forwardDVM tr s) (hfits : Fits ls N tr) : Assembled ls forwardDVM tr s where
  once := by
    have hmap : (s.snoops.map fun g => g.st.addr) = (List.range s.snoops.length).map (lineAt ls tr) := by
      refine List.ext_getElem? fun i => ?_
      rw [List.getElem?_map, List.getElem?_map]
      rcases Nat.lt_or_ge i s.snoops.length with hi | hi
      · rw [List.getElem?_range hi, List.getElem?_eq_getElem hi]
        exact congrArg some (h.addr i _ (List.getElem?_eq_getElem hi))
      · rw [List.getElem?_eq_none hi, List.getElem?_eq_none (by rwa [List.length_range])]
        rfl
    rw [hmap]
    refine List.Nodup.map_on (fun i hi k hk heq => ?_) List.nodup_range
    exact lineAt_inj hfits.isUInt hfits.nonempty (lt_of_lt_of_le (List.mem_range.1 hi) h.length) (lt_of_lt_of_le (List.mem_range.1 hk) h.length) heq
  snooped g hg := by
    obtain ⟨k, hk⟩ := List.mem_iff_getElem?.1 hg
    obtain ⟨-, j, hj, hb⟩ := h.meets hfits hk
    have hdvm : tr.isDVM = false := by
      have hs := hfits.snoopsLines
      rw [Transaction.snoopsLines, Bool.and_eq_true, Bool.not_eq_true'] at hs
      exact hs.2
    refine ⟨⟨j, hj, hb.symm⟩, ?_, fun i => ?_⟩
    · rw [(h.line g hg).asked]
      exact (List.nodup_finRange N).filter _
    · rw [(h.line g hg).asked]
      simp [snoopedPorts, hdvm]
  all hl j hj := by
    have hlt : (ls.getLineOffset tr.address + j) / ls.size < s.snoops.length := by
      rw [h.ended hl, Transaction.numSegments_eq hfits.isUInt hfits.nonempty]
      exact Nat.lt_succ_of_le (Nat.div_le_div_right (by omega))
    exact ⟨_, List.getElem_mem hlt, (h.addr _ _ (List.getElem?_eq_getElem hlt)).trans (lineOfByte_eq_lineAt tr j).symm⟩
  finalized := by
    rw [h.finalized]
    exact if_congr (h.deletedCount_eq_iff hfits.numSegments_pos) rfl rfl
  progress hz := by
    cases hl : s.looping with
    | true => exact ⟨.generate, by simp [Engine.step, hl]⟩
    | false =>
      rw [h.finalized] at hz
      have hne : ¬∀ g ∈ s.snoops, g.deleted = true := fun hall => by
        rw [if_pos ((h.deletedCount_eq_iff hfits.numSegments_pos).2 ⟨hl, hall⟩)] at hz
        cases hz
      obtain ⟨g, hne⟩ := not_forall.1 hne
      obtain ⟨hg, hd⟩ := Classical.not_imp.1 hne
      obtain ⟨k, hk⟩ := List.mem_iff_getElem?.1 hg
      exact exists_step h hl hk (Bool.eq_false_iff.2 hd)
  data hr g hg hd := by
    have hok := h.line g hg
    cases hlast : g.lastData with
    | some gp => 
      have hdt := List.find?_some hlast
      exact ⟨gp.data, .inl ⟨gp, List.mem_of_find?_eq_some hlast, hdt, rfl⟩, hok.supplied hr gp hlast⟩
    | none =>
      refine ⟨g.st.dsData, .inr ⟨fun gp hgp => ?_, hok.fetched hr (hok.deleted hd) hlast⟩, hok.read hr hd hlast⟩
      exact Bool.eq_false_iff.2 (List.find?_eq_none.1 hlast gp hgp)
  kept := h.kept

end Run

/-- **Segmentation.** A transaction of which the promise is kept is assembled line by line, and finalized once, in every run whose steps are
as the promise asks. -/
theorem assembled_of_reach {ls : LineSize} {forwardDVM : Fin N → Bool} {tr : Transaction} (hfits : Fits ls N tr) {s : Engine N}
    (h : Reach (fun s a => s.step ls forwardDVM a) StepOk (Engine.start ls tr) s) : Assembled ls forwardDVM tr s :=
  (h.invariant (I := Inv ls forwardDVM tr) (inv_start hfits) fun hi hok hs => hi.step hfits hok hs).assembled hfits

/-- Lines of four bytes. -/
def shortLines : LineSize := ⟨2, by decide⟩

/-- An ACE-Lite master reads bytes of two lines. -/
def readOnce : Transaction where
  portId := 1024
  cmd := .read .readOnce
  address := 2
  dataLength := 4
  data := fun _ => 0
  genattr := { domain := .inner }

/-- Data from a cache. -/
def fromCache (dirty : Bool) : SnoopGp := ⟨fun _ => 1, { datatransfer := true, dirty }, .ok⟩

/-- One line comes from a cache, and the other from downstream. -/
theorem assembled_readOnce : ∃ s : Engine 1, s.finalized = 1 ∧ Assembled shortLines (fun _ => false) readOnce s := by
  obtain ⟨s, hrun, hfin⟩ : ∃ s : Engine 1, run (fun s a => s.step shortLines (fun _ => false) a) (Engine.start shortLines readOnce)
      [.generate, .generate, .generate, .answer 1 0 ⟨fun _ => 0, {}, .ok⟩, .answer 0 0 (fromCache false), .snoopDone 0, .snoopDone 1, .finalize 0,
        .dsGp 1 (fun _ => 2) .ok, .finalize 1] = some s ∧ s.finalized = 1 := ⟨_, rfl, rfl⟩
  refine ⟨s, hfin, assembled_of_reach ⟨rfl, by decide, by decide, by decide, .inl rfl, fun _ => .inl (by decide)⟩ (Reach.refl.of_run ?_ hrun)⟩
  decide

/-- Dirty data from a cache is overwritten with what downstream has. -/
theorem not_assembled : ¬ ∀ (N : ℕ) (ls : LineSize) (forwardDVM : Fin N → Bool) (tr : Transaction) (s : Engine N),
    (tr.isReadOnce = true ∨ tr.isWriteUnique = true) → tr.dataLength < 2 ^ 32 → (tr.portId < N ↔ tr.isACELite = false) →
    Reach (fun s a => s.step ls forwardDVM a) anyStep (Engine.start ls tr) s → Assembled ls forwardDVM tr s := by
  intro hall
  obtain ⟨s, hrun, hzero, g, hg, hdel, haddr, hans⟩ : ∃ s : Engine 1, run (fun s a => s.step shortLines (fun _ => false) a) (Engine.start shortLines readOnce)
      [.generate, .generate, .generate, .answer 0 0 (fromCache true), .snoopDone 0, .dsGp 0 (fun _ => 0) .ok, .finalize 0] = some s ∧
      s.tr.data 0 = 0 ∧ ∃ g ∈ s.snoops, g.deleted = true ∧ g.st.addr = 0 ∧ g.answers = [fromCache true] :=
    ⟨_, rfl, rfl, _, List.mem_cons_self, rfl, rfl, rfl⟩
  obtain ⟨v, hv, hline⟩ := (hall 1 shortLines (fun _ => false) readOnce s (.inl rfl) (by decide) (by decide) (reach_of_run hrun)).data rfl g hg hdel
  have hbyte := hline 0 (by decide) (by rw [haddr]; decide)
  rw [hzero] at hbyte
  rcases hv with ⟨gp, hgp, -, rfl⟩ | ⟨hnone, -⟩
  · rw [hans, List.mem_singleton] at hgp
    rw [hgp] at hbyte
    exact absurd hbyte (by decide)
  · exact absurd (hnone _ (hans ▸ List.mem_cons_self)) (by decide)

end LibSystemCTLM.Ace.Segments
