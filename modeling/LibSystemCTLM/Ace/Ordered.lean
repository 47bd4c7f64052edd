import LibSystemCTLM.Ace.Orderer
import LibSystemCTLM.Ace.Transact

/-!
# One transaction a cacheline

No two snooping transactions that share a cacheline are in progress at the same time, and so no
older write-back of snooped dirty data overwrites what a completed write has written (`Ordered`).
The orderer compares byte ranges for this, while everything behind it is about cachelines. Where
sharing a line means overlapping in bytes, and in the other cases that `OrderedStep` asks for, it
keeps the promise (`ordered_of_reach`); two writes to different bytes of a line break it.
-/

namespace LibSystemCTLM.Ace

open Foundation SnoopTransaction

variable {N : ℕ} {ls : LineSize}

/-! ### What a transaction is about -/

namespace Transaction

variable {t t' : Transaction}

/-- What stays of a transaction while it is answered segment by segment. -/
def ident (t : Transaction) : Transaction := { t.request with nSegments := 0 }

theorem ident_congr (h : t'.request = t.request) : t'.ident = t.ident := by rw [ident, ident, h]

section Congr

variable (h : t'.ident = t.ident)

include h

theorem snoopsLines_congr : t'.snoopsLines = t.snoopsLines := (congrArg snoopsLines h :)

theorem isSnoopingTransaction_congr : t'.isSnoopingTransaction = t.isSnoopingTransaction := (congrArg isSnoopingTransaction h :)

theorem numSegments_congr : t'.numSegments ls = t.numSegments ls := (congrArg (numSegments ls) h :)

theorem lines_congr : t'.lines ls = t.lines ls := (congrArg (lines ls) h :)

theorem isReadOnce_ident : t'.isReadOnce = t.isReadOnce := (congrArg isReadOnce h :)

theorem isWriteUnique_ident : t'.isWriteUnique = t.isWriteUnique := (congrArg isWriteUnique h :)

end Congr

/-- Two transactions share a cacheline. -/
def SharesLine (ls : LineSize) (t u : Transaction) : Prop := ∃ l ∈ t.lines ls, l ∈ u.lines ls

theorem SharesLine.symm {u : Transaction} (h : SharesLine ls t u) : SharesLine ls u t := by
  obtain ⟨l, ht, hu⟩ := h
  exact ⟨l, hu, ht⟩

theorem sharesLine_congr {u u' : Transaction} (h : t'.ident = t.ident) (hu : u'.ident = u.ident) :
    SharesLine ls t' u' ↔ SharesLine ls t u := by
  rw [SharesLine, SharesLine, lines_congr h, lines_congr hu]

/-- The cacheline of the byte `m` of a transfer. -/
theorem getTag_add (ls : LineSize) (addr : Addr) (m : ℕ) : ls.getTag (addr + BitVec.ofNat 64 m) =
    ls.getTag addr + BitVec.ofNat 64 ((ls.getLineOffset addr + m) / ls.size * ls.size) := by
  rw [LineSize.getTag, add_eq_lineOf_add ls.bits, lineOf_add_nat ls.bits_le]
  rfl

/-- The cachelines from that of the first byte to that of the last. -/
theorem numSegments_eq (hlen : t.dataLength < 2 ^ 32) (hpos : 0 < t.dataLength) :
    t.numSegments ls = (ls.getLineOffset t.address + (t.dataLength - 1)) / ls.size + 1 := by
  have ho := ls.getLineOffset_lt t.address
  have hsz : ls.size ≤ 2 ^ 30 := Nat.pow_le_pow_right two_pos (Nat.le_of_lt_succ ls.isInt)
  -- the last byte's line, and the one behind it
  have hlast : t.address + BitVec.ofNat 64 t.dataLength - 1 + BitVec.ofNat 64 ls.size =
      t.address + BitVec.ofNat 64 (t.dataLength - 1 + ls.size) := by
    have hone : BitVec.ofNat 64 t.dataLength = BitVec.ofNat 64 (t.dataLength - 1) + 1 := by
      conv_lhs => rw [show t.dataLength = t.dataLength - 1 + 1 by omega, BitVec.ofNat_add]
      rfl
    rw [hone, ← BitVec.add_assoc, BitVec.add_sub_cancel, BitVec.add_assoc, ← BitVec.ofNat_add]
  have hdiv : (ls.getLineOffset t.address + (t.dataLength - 1 + ls.size)) / ls.size =
      (ls.getLineOffset t.address + (t.dataLength - 1)) / ls.size + 1 := by
    rw [← Nat.add_assoc, Nat.add_div_right _ ls.size_pos]
  have hle := Nat.div_mul_le_self (ls.getLineOffset t.address + (t.dataLength - 1 + ls.size)) ls.size
  simp only [numSegments]
  rw [hlast, getTag_add, BitVec.add_comm, BitVec.add_sub_cancel, BitVec.toNat_ofNat, Nat.mod_eq_of_lt (by omega),
    Nat.mul_div_cancel _ ls.size_pos, hdiv]

/-- The snoop engine goes through the cacheline of every byte of a transfer. -/
theorem getTag_mem_lines (hlen : t.dataLength < 2 ^ 32) {i : ℕ} (hi : i < t.dataLength) :
    ls.getTag (t.address + BitVec.ofNat 64 i) ∈ t.lines ls := by
  refine List.mem_map.2 ⟨(ls.getLineOffset t.address + i) / ls.size, List.mem_range.2 ?_, (getTag_add ls t.address i).symm⟩
  rw [numSegments_eq hlen (by omega)]
  exact Nat.lt_succ_of_le (Nat.div_le_div_right (by omega))

/-- A `ReadOnce` is about cachelines. -/
theorem snoopsLines_of_isReadOnce (h : t.isReadOnce = true) : t.snoopsLines = true := by
  revert h
  unfold isReadOnce snoopsLines isSnoopingTransaction isDVM
  cases t.cmd with
  | read s => cases s <;> simp [isSnoopingRead]
  | write | ignoreRead | ignoreWrite => simp

/-- So is a `WriteUnique` or `WriteLineUnique`. -/
theorem snoopsLines_of_isWrite (h : (t.isWriteUnique || t.isWriteLineUnique) = true) : t.snoopsLines = true := by
  revert h
  unfold isWriteUnique isWriteLineUnique snoopsLines isSnoopingTransaction isDVM
  cases t.cmd with
  | write s => cases s <;> simp
  | read | ignoreRead | ignoreWrite => simp

end Transaction

/-! ### The promise -/

/-- No write to the line since the data of the line was stored for the transaction. -/
def CleanSince (ls : LineSize) (id : ℕ) (line : Addr) (trace : List LineEvent) : Prop :=
  ∀ mid t, trace = mid ++ .capture id line :: t → ∀ id' tr, .write id' tr ∈ mid → line ∉ tr.lines ls

/-- No write is overwritten by an older write-back: what is written back was stored before, and nothing
was written to the line in between. -/
def NoLostWrite (ls : LineSize) (trace : List LineEvent) : Prop :=
  ∀ id line t, (.writeback id line :: t) <:+ trace → .capture id line ∈ t ∧ CleanSince ls id line t

/-- A transaction is in progress. -/
def Orderer.InProgress (s : Orderer N) (id : ℕ) : Prop := id ∈ s.ongoing ∨ id ∈ s.blocked

/-- **The promise of the orderer.** -/
structure Ordered (ls : LineSize) (s : Orderer N) : Prop where
  /-- No two transactions in progress share a cacheline. -/
  apart : ∀ a b, s.InProgress a → s.InProgress b → a ≠ b → (s.tr a).snoopsLines = true → (s.tr b).snoopsLines = true →
    ¬ Transaction.SharesLine ls (s.tr a) (s.tr b)
  noLostWrite : NoLostWrite ls s.trace

section Trace

variable {id : ℕ} {line : Addr} {trace : List LineEvent} {e : LineEvent}

theorem CleanSince.cons (h : CleanSince ls id line trace) (he : ∀ id' tr, e = .write id' tr → line ∉ tr.lines ls) :
    CleanSince ls id line (e :: trace) := by
  intro mid t ht id' tr hmem
  cases mid with
  | nil => cases hmem
  | cons m mid =>
    obtain ⟨rfl, ht'⟩ := List.cons.inj ht
    rcases List.mem_cons.1 hmem with heq | hmem
    · exact he id' tr heq.symm
    · exact h mid t ht' id' tr hmem

theorem CleanSince.of_not_mem (h : .capture id line ∉ trace) : CleanSince ls id line trace := by
  rintro mid t rfl
  exact absurd (List.mem_append_right mid List.mem_cons_self) h

theorem NoLostWrite.cons (h : NoLostWrite ls trace) (he : ∀ id line, e ≠ .writeback id line) : NoLostWrite ls (e :: trace) := by
  intro id line t ht
  rcases List.suffix_cons_iff.1 ht with heq | hs
  · exact absurd (List.cons.inj heq).1.symm (he id line)
  · exact h id line t hs

theorem NoLostWrite.writeback (h : NoLostWrite ls trace) (hm : .capture id line ∈ trace) (hc : CleanSince ls id line trace) :
    NoLostWrite ls (.writeback id line :: trace) := by
  intro id' line' t ht
  rcases List.suffix_cons_iff.1 ht with heq | hs
  · obtain ⟨hev, rfl⟩ := List.cons.inj heq
    obtain ⟨rfl, rfl⟩ := LineEvent.writeback.inj hev
    exact ⟨hm, hc⟩
  · exact h id' line' t hs

end Trace

/-! ### One transaction -/

/-- It has passed the snoop engine's fifo. -/
def Phase.past : Phase → Bool
  | .absent | .waiting | .fifo => false
  | .snooping | .downstream | .notified | .returned => true

/-- It was let pass and has not returned. -/
def Phase.active : Phase → Bool
  | .fifo | .snooping | .downstream | .notified => true
  | .absent | .waiting | .returned => false

/-- What holds of a transaction and its snoop transactions. -/
structure TxOk (ls : LineSize) (id : ℕ) (tr : Transaction) (phase : Phase) (segs : List (Seg N)) (trace : List LineEvent) : Prop where
  /-- Only snooping transactions wait or are snooped. -/
  kind : phase = .waiting ∨ phase = .fifo ∨ segs ≠ [] → tr.isSnoopingTransaction = true
  place : segs ≠ [] → phase.past = true ∧ (tr.snoopsLines = true → phase = .snooping)
  line : ∀ seg ∈ segs, seg.st.addr ∈ tr.lines ls
  size : phase = .waiting ∨ phase = .fifo → tr.nSegments = tr.numSegments ls
  single : tr.snoopsLines = true → phase = .waiting ∨ phase = .fifo →
    tr.isReadOnce = true ∨ tr.isWriteUnique = true ∨ tr.numSegments ls ≤ 1
  /-- All its snoop transactions are waited for. -/
  count : tr.snoopsLines = true → phase = .snooping →
    if (tr.isReadOnce || tr.isWriteUnique) = true then tr.nSegments = segs.length else segs.length ≤ 1
  noData : tr.snoopsLines = false → ∀ seg ∈ segs, seg.st.execDsGp = false
  stage : ∀ seg ∈ segs, seg.stage = .downstream → seg.st.execDsGp = true
  dsRead : ∀ seg ∈ segs, seg.st.dsRead = tr.isReadOnce
  early : phase.past = false → ∀ l, .capture id l ∉ trace
  clean : tr.snoopsLines = true → ∀ seg ∈ segs, CleanSince ls id seg.st.addr trace
  captured : ∀ seg ∈ segs, seg.st.execDsGp = true → seg.st.dsRead = false → .capture id seg.st.addr ∈ trace

namespace TxOk

variable {id : ℕ} {tr tr' : Transaction} {phase p : Phase} {segs segs' : List (Seg N)} {trace : List LineEvent}

theorem segs_eq_nil (h : TxOk ls id tr phase segs trace) (hp : phase.past = false) : segs = [] := by
  by_contra hne
  rw [(h.place hne).1] at hp
  cases hp

/-- A transaction without snoop transactions moves on. -/
theorem move (h : TxOk ls id tr phase ([] : List (Seg N)) trace) (hid : tr'.ident = tr.ident)
    (hw : p = .waiting ∨ p = .fifo → (phase = .waiting ∨ phase = .fifo) ∧ tr'.nSegments = tr.nSegments) (hp : p ≠ .snooping)
    (he : p.past = false → phase.past = false) : TxOk ls id tr' p ([] : List (Seg N)) trace := by
  refine ⟨fun hk => ?_, fun hne => absurd rfl hne, by simp, fun hk => ?_, fun hs hk => ?_, fun _ hk => absurd hk hp, by simp, by simp, by simp,
    fun hp => h.early (he hp), by simp, by simp⟩
  · rw [Transaction.isSnoopingTransaction_congr hid]
    have hk' : p = .waiting ∨ p = .fifo := by simpa using hk
    rcases (hw hk').1 with hph | hph
    · exact h.kind (.inl hph)
    · exact h.kind (.inr (.inl hph))
  · rw [(hw hk).2, Transaction.numSegments_congr hid]
    exact h.size (hw hk).1
  · rw [Transaction.isReadOnce_ident hid, Transaction.isWriteUnique_ident hid, Transaction.numSegments_congr hid]
    exact h.single (Transaction.snoopsLines_congr hid ▸ hs) (hw hk).1

/-- Events of other transactions change nothing, but for writes to a line that is snooped. -/
theorem cons {e : LineEvent} (h : TxOk ls id tr phase segs trace) (hc : ∀ l, e ≠ .capture id l)
    (hw : tr.snoopsLines = true → segs ≠ [] → ∀ id' tr', e = .write id' tr' → ¬ Transaction.SharesLine ls tr tr') :
    TxOk ls id tr phase segs (e :: trace) := by
  refine ⟨h.kind, h.place, h.line, h.size, h.single, h.count, h.noData, h.stage, h.dsRead, fun hp l hm => ?_, fun hs seg hseg => ?_,
    fun seg hseg hx hr => List.mem_cons_of_mem _ (h.captured seg hseg hx hr)⟩
  · rcases List.mem_cons.1 hm with heq | hm
    · exact hc l heq.symm
    · exact h.early hp l hm
  · refine (h.clean hs seg hseg).cons fun id' tr' he hl => ?_
    exact hw hs (List.ne_nil_of_mem hseg) id' tr' he ⟨_, h.line seg hseg, hl⟩

theorem arrive (hk : p = .waiting ∨ p = .fifo → tr.isSnoopingTransaction = true) (hn : tr.nSegments = tr.numSegments ls)
    (h1 : tr.snoopsLines = true → tr.isReadOnce = true ∨ tr.isWriteUnique = true ∨ tr.numSegments ls ≤ 1) (hp : p ≠ .snooping)
    (he : ∀ l, .capture id l ∉ trace) : TxOk ls id tr p ([] : List (Seg N)) trace where
  kind hph := hk (by simpa using hph)
  place hne := absurd rfl hne
  line := by simp
  size _ := hn
  single hs _ := h1 hs
  count _ hph := absurd hph hp
  noData := by simp
  stage := by simp
  dsRead := by simp
  early _ := he
  clean := by simp
  captured := by simp

theorem newSegs {forwardDVM : Fin N → Bool} (h : TxOk ls id tr .fifo ([] : List (Seg N)) trace) :
    TxOk ls id tr .snooping (Orderer.newSegs ls forwardDVM tr) trace := by
  have hmem : ∀ seg ∈ Orderer.newSegs ls forwardDVM tr, ∃ j < tr.nSegments,
      seg.st = mk' tr (ls.getTag tr.address + BitVec.ofNat 64 (j * ls.size)) (Orderer.numMasters forwardDVM tr) ∧
        seg.stage ≠ .downstream := by
    intro seg hseg
    obtain ⟨j, hj, rfl⟩ := List.mem_map.1 hseg
    refine ⟨j, List.mem_range.1 hj, rfl, ?_⟩
    dsimp only
    split <;> exact Stage.noConfusion
  have hnot : ∀ l, .capture id l ∉ trace := h.early rfl
  refine ⟨fun _ => h.kind (.inr (.inl rfl)), fun _ => ⟨rfl, fun _ => rfl⟩, fun seg hseg => ?_, fun hk => ?_, fun _ hk => ?_, fun hs _ => ?_,
    fun hs seg hseg => ?_, fun seg hseg hst => ?_, fun seg hseg => ?_, fun hp => (by cases hp), fun _ seg _ => .of_not_mem (hnot _),
    fun seg hseg hx hr => ?_⟩
  · obtain ⟨j, hj, hst, -⟩ := hmem seg hseg
    rw [hst]
    exact List.mem_map.2 ⟨j, List.mem_range.2 (h.size (.inr rfl) ▸ hj), rfl⟩
  · rcases hk with hk | hk <;> cases hk
  · rcases hk with hk | hk <;> cases hk
  · have hlen : (Orderer.newSegs ls forwardDVM tr).length = tr.nSegments := by simp [Orderer.newSegs]
    split
    · exact hlen.symm
    · rename_i hno
      rw [hlen, h.size (.inr rfl)]
      rcases h.single hs (.inr rfl) with hr | hr | hr
      · exact absurd (by rw [hr]; rfl) hno
      · exact absurd (by rw [hr]; exact Bool.or_true _) hno
      · exact hr
  · obtain ⟨j, -, hst, -⟩ := hmem seg hseg
    rw [hst]
    show tr.isReadOnce = false
    by_contra hro
    rw [Transaction.snoopsLines_of_isReadOnce (Bool.not_eq_false _ ▸ hro)] at hs
    cases hs
  · obtain ⟨j, -, -, hne⟩ := hmem seg hseg
    exact absurd hst hne
  · obtain ⟨j, -, hst, -⟩ := hmem seg hseg
    rw [hst]
    rfl
  · obtain ⟨j, -, hst, -⟩ := hmem seg hseg
    rw [hst] at hx hr
    exact absurd (hx.symm.trans hr) (by simp)

/-- Nothing is asked of a transaction without snoop transactions that has passed the engine. -/
theorem of_nil (hp : p.past = true) (hs : p ≠ .snooping) : TxOk ls id tr p ([] : List (Seg N)) trace where
  kind hk := by
    rcases hk with rfl | rfl | hk
    · cases hp
    · cases hp
    · exact absurd rfl hk
  place hne := absurd rfl hne
  line := by simp
  size hk := by rcases hk with rfl | rfl <;> cases hp
  single _ hk := by rcases hk with rfl | rfl <;> cases hp
  count _ hk := absurd hk hs
  noData := by simp
  stage := by simp
  dsRead := by simp
  early he := by
    rw [hp] at he
    cases he
  clean := by simp
  captured := by simp

/-- A transaction that is not snooping goes further on, with the snoop transactions a DVM message has left. -/
theorem leave (h : TxOk ls id tr phase segs trace) (hid : tr'.ident = tr.ident) (hp : p.past = true)
    (hps : p ≠ .snooping) (hphs : phase ≠ .snooping) : TxOk ls id tr' p segs trace := by
  by_cases hnil : segs = []
  · subst hnil
    exact .of_nil hp hps
  · have hsl : tr.snoopsLines = false := by
      by_contra hs
      exact hphs ((h.place hnil).2 (Bool.not_eq_false _ ▸ hs))
    have hsl' := (Transaction.snoopsLines_congr hid).trans hsl
    have hnp : ∀ {q : Phase}, q.past = true → ¬ (q = .waiting ∨ q = .fifo) := by
      rintro q hq (rfl | rfl) <;> cases hq
    constructor
    case kind => exact fun _ => (Transaction.isSnoopingTransaction_congr hid).trans (h.kind (.inr (.inr hnil)))
    case place => exact fun _ => ⟨hp, fun hs => by rw [hsl'] at hs; cases hs⟩
    case line =>
      rw [Transaction.lines_congr hid]
      exact h.line
    case size => exact fun hk => absurd hk (hnp hp)
    case single => exact fun _ hk => absurd hk (hnp hp)
    case count => exact fun _ hk => absurd hk hps
    case noData => exact fun _ => h.noData hsl
    case stage => exact h.stage
    case dsRead =>
      rw [Transaction.isReadOnce_ident hid]
      exact h.dsRead
    case early =>
      intro he
      rw [hp] at he
      cases he
    case clean =>
      intro hs
      rw [hsl'] at hs
      cases hs
    case captured => exact h.captured

/-- Dirty data is stored for a snoop transaction. -/
theorem capture (h : TxOk ls id tr phase segs trace) (hne : segs ≠ []) (l : Addr) :
    TxOk ls id tr phase segs (.capture id l :: trace) := by
  refine ⟨h.kind, h.place, h.line, h.size, h.single, h.count, h.noData, h.stage, h.dsRead, fun hp => ?_,
    fun hs seg hseg => (h.clean hs seg hseg).cons (by simp), fun seg hseg hx hr => List.mem_cons_of_mem _ (h.captured seg hseg hx hr)⟩
  rw [(h.place hne).1] at hp
  cases hp

theorem set {k : ℕ} {seg seg' : Seg N} (h : TxOk ls id tr phase segs trace) (hk : segs[k]? = some seg) (hid : tr'.ident = tr.ident)
    (hn : tr'.nSegments = tr.nSegments) (haddr : seg'.st.addr = seg.st.addr) (hdr : seg'.st.dsRead = seg.st.dsRead)
    (hnd : tr.snoopsLines = false → seg'.st.execDsGp = false) (hst : seg'.stage = .downstream → seg'.st.execDsGp = true)
    (hcap : seg'.st.execDsGp = true → seg'.st.dsRead = false → .capture id seg.st.addr ∈ trace) :
    TxOk ls id tr' phase (segs.set k seg') trace := by
  have hseg : seg ∈ segs := List.mem_of_getElem? hk
  have hne : segs ≠ [] := List.ne_nil_of_mem hseg
  have hsl := Transaction.snoopsLines_congr hid
  have hall : ∀ {P : Seg N → Prop}, (∀ x ∈ segs, P x) → P seg' → ∀ x ∈ segs.set k seg', P x := fun hP hs x hx =>
    (List.mem_or_eq_of_mem_set hx).elim (hP x) fun he => he ▸ hs
  constructor
  case kind => exact fun _ => (Transaction.isSnoopingTransaction_congr hid).trans (h.kind (.inr (.inr hne)))
  case place => exact fun _ => ⟨(h.place hne).1, fun hs => (h.place hne).2 (hsl ▸ hs)⟩
  case line =>
    rw [Transaction.lines_congr hid]
    exact hall h.line (haddr ▸ h.line seg hseg)
  case size => exact fun hp => hn.trans ((h.size hp).trans (Transaction.numSegments_congr hid).symm)
  case single =>
    rw [hsl, Transaction.isReadOnce_ident hid, Transaction.isWriteUnique_ident hid, Transaction.numSegments_congr hid]
    exact h.single
  case count =>
    rw [hsl, Transaction.isReadOnce_ident hid, Transaction.isWriteUnique_ident hid, hn, List.length_set]
    exact h.count
  case noData => exact fun hs => hall (h.noData (hsl ▸ hs)) (hnd (hsl ▸ hs))
  case stage => exact hall h.stage hst
  case dsRead =>
    rw [Transaction.isReadOnce_ident hid]
    exact hall h.dsRead (hdr.trans (h.dsRead seg hseg))
  case early => exact h.early
  case clean => exact fun hs => hall (h.clean (hsl ▸ hs)) (haddr ▸ h.clean (hsl ▸ hs) seg hseg)
  case captured => exact hall h.captured (haddr ▸ hcap)

/-- A snoop transaction is finalized, and the transaction is where it was, or somewhere behind. -/
theorem eraseIdx {k : ℕ} (h : TxOk ls id tr phase segs trace) (hid : tr'.ident = tr.ident) (hne : segs ≠ [])
    (hp : p.past = true) (hpl : tr.snoopsLines = true → p = .snooping)
    (hc : tr.snoopsLines = true → if (tr.isReadOnce || tr.isWriteUnique) = true then tr'.nSegments = (segs.eraseIdx k).length
      else (segs.eraseIdx k).length ≤ 1) : TxOk ls id tr' p (segs.eraseIdx k) trace := by
  have hsl := Transaction.snoopsLines_congr hid
  have hall : ∀ {P : Seg N → Prop}, (∀ x ∈ segs, P x) → ∀ x ∈ segs.eraseIdx k, P x := fun hP x hx => hP x (List.mem_of_mem_eraseIdx hx)
  have hnp : ¬ (p = .waiting ∨ p = .fifo) := by
    rintro (rfl | rfl) <;> cases hp
  constructor
  case kind => exact fun _ => (Transaction.isSnoopingTransaction_congr hid).trans (h.kind (.inr (.inr hne)))
  case place => exact fun _ => ⟨hp, fun hs => hpl (hsl ▸ hs)⟩
  case line =>
    rw [Transaction.lines_congr hid]
    exact hall h.line
  case size => exact fun hk => absurd hk hnp
  case single => exact fun _ hk => absurd hk hnp
  case count =>
    rw [hsl, Transaction.isReadOnce_ident hid, Transaction.isWriteUnique_ident hid]
    exact fun hs _ => hc hs
  case noData => exact fun hs => hall (h.noData (hsl ▸ hs))
  case stage => exact hall h.stage
  case dsRead =>
    rw [Transaction.isReadOnce_ident hid]
    exact hall h.dsRead
  case early =>
    intro he
    rw [hp] at he
    cases he
  case clean => exact fun hs => hall (h.clean (hsl ▸ hs))
  case captured => exact hall h.captured

end TxOk

/-! ### All transactions -/

/-- What holds of the lists. -/
structure ListsOk (ls : LineSize) (s : Orderer N) : Prop where
  fresh : ∀ id, s.next ≤ id → s.phase id = .absent
  engine : ∀ id ∈ s.engine, s.phase id = .fifo
  engineNodup : s.engine.Nodup
  waiting : ∀ id, id ∈ s.overlapping ∨ id ∈ s.blocked → s.phase id = .waiting
  overlappingNodup : s.overlapping.Nodup
  overlapping : ∀ id ∈ s.overlapping, (s.tr id).snoopsLines = true
  blocked : ∀ id ∈ s.blocked, (s.tr id).snoopsLines = false
  blockedNodup : s.blocked.Nodup
  present : ∀ id ∈ s.ongoing, s.phase id ≠ .absent ∧ s.phase id ≠ .waiting
  active : ∀ id, (s.tr id).snoopsLines = true → (s.phase id).active = true → id ∈ s.ongoing
  apart : ∀ a ∈ s.ongoing, ∀ b ∈ s.ongoing, a ≠ b → (s.tr a).snoopsLines = true → (s.tr b).snoopsLines = true →
    ¬ Transaction.SharesLine ls (s.tr a) (s.tr b)

/-- The invariant of the orderer. -/
structure OrderInv (ls : LineSize) (s : Orderer N) : Prop where
  lists : ListsOk ls s
  tx : ∀ id, TxOk ls id (s.tr id) (s.phase id) (s.segs id) s.trace
  noLostWrite : NoLostWrite ls s.trace

/-- The promise follows from the invariant. -/
theorem OrderInv.ordered {s : Orderer N} (h : OrderInv ls s) : Ordered ls s where
  apart a b ha hb hab hsa hsb := by
    have hin : ∀ id, s.InProgress id → (s.tr id).snoopsLines = true → id ∈ s.ongoing := fun id hid hs => by
      rcases hid with hid | hid
      · exact hid
      · rw [h.lists.blocked id hid] at hs
        cases hs
    exact h.lists.apart a (hin a ha hsa) b (hin b hb hsb) hab hsa hsb
  noLostWrite := h.noLostWrite

section Lists

variable {s s' : Orderer N} {id : ℕ} {p : Phase}

/-- A transaction that was let pass moves on. -/
theorem ListsOk.move (h : ListsOk ls s) (hn : s'.next = s.next) (hb : s'.blocked = s.blocked) (hov : s'.overlapping = s.overlapping)
    (htr : ∀ i, (s'.tr i).ident = (s.tr i).ident) (hph : s'.phase = Function.update s.phase id p)
    (hid : s.phase id ≠ .absent ∧ s.phase id ≠ .waiting) (hp : p.past = true)
    (hen : s'.engine.Nodup ∧ ∀ i ∈ s'.engine, i ∈ s.engine ∧ i ≠ id) (hon : ∀ i ∈ s'.ongoing, i ∈ s.ongoing)
    (hon' : ∀ i ∈ s.ongoing, i ≠ id → i ∈ s'.ongoing)
    (hact : (s.tr id).snoopsLines = true → p.active = true → id ∈ s'.ongoing) : ListsOk ls s' := by
  have hphase : ∀ i, i ≠ id → s'.phase i = s.phase i := fun i hi => by rw [hph, Function.update_of_ne hi]
  have hself : s'.phase id = p := by rw [hph, Function.update_self]
  have hsl := fun i => Transaction.snoopsLines_congr (htr i)
  constructor
  case fresh =>
    intro i hi
    have hf := h.fresh i (hn ▸ hi)
    have hiid : i ≠ id := by
      rintro rfl
      exact hid.1 hf
    rw [hphase i hiid, hf]
  case engine =>
    intro i hi
    obtain ⟨hi, hiid⟩ := hen.2 i hi
    rw [hphase i hiid]
    exact h.engine i hi
  case engineNodup => exact hen.1
  case waiting =>
    intro i hi
    have hf := h.waiting i (hov ▸ hb ▸ hi)
    have hiid : i ≠ id := by
      rintro rfl
      exact hid.2 hf
    rw [hphase i hiid, hf]
  case overlappingNodup => exact hov ▸ h.overlappingNodup
  case overlapping =>
    intro i hi
    rw [hsl]
    exact h.overlapping i (hov ▸ hi)
  case blocked =>
    intro i hi
    rw [hsl]
    exact h.blocked i (hb ▸ hi)
  case blockedNodup => exact hb ▸ h.blockedNodup
  case present =>
    intro i hi
    by_cases hiid : i = id
    · subst hiid
      rw [hself]
      constructor <;> rintro rfl <;> cases hp
    · rw [hphase i hiid]
      exact h.present i (hon i hi)
  case active =>
    intro i hs ha
    rw [hsl] at hs
    by_cases hiid : i = id
    · subst hiid
      exact hact hs (hself ▸ ha)
    · exact hon' i (h.active i hs (hphase i hiid ▸ ha)) hiid
  case apart =>
    intro a ha b hb' hab hsa hsb
    rw [Transaction.sharesLine_congr (htr a) (htr b)]
    exact h.apart a (hon a ha) b (hon b hb') hab (hsl a ▸ hsa) (hsl b ▸ hsb)

theorem ListsOk.arrive {t : Transaction} (h : ListsOk ls s) (hn : s'.next = s.next + 1) (htr : s'.tr = Function.update s.tr s.next t)
    (hph : s'.phase = Function.update s.phase s.next p) (hp : p ≠ .absent)
    (hov : s'.overlapping = s.overlapping ∨ (s'.overlapping = s.overlapping ++ [s.next] ∧ p = .waiting ∧ t.snoopsLines = true))
    (hbl : s'.blocked = s.blocked ∨ (s'.blocked = s.blocked ++ [s.next] ∧ p = .waiting ∧ t.snoopsLines = false))
    (hen : s'.engine = s.engine ∨ (s'.engine = s.engine ++ [s.next] ∧ p = .fifo))
    (hon : (s'.ongoing = s.ongoing ∧ (t.snoopsLines = true → p.active = false)) ∨ (s'.ongoing = s.ongoing ++ [s.next] ∧ p ≠ .waiting ∧
      (t.snoopsLines = true → ∀ u ∈ s.ongoing, (s.tr u).snoopsLines = true → ¬ Transaction.SharesLine ls t (s.tr u)))) :
    ListsOk ls s' := by
  have habs : s.phase s.next = .absent := h.fresh s.next le_rfl
  have hne : ∀ {i}, s.phase i ≠ .absent → i ≠ s.next := by
    rintro i hi rfl
    exact hi habs
  have hphase : ∀ i, i ≠ s.next → s'.phase i = s.phase i := fun i hi => by rw [hph, Function.update_of_ne hi]
  have htrans : ∀ i, i ≠ s.next → s'.tr i = s.tr i := fun i hi => by rw [htr, Function.update_of_ne hi]
  have hpself : s'.phase s.next = p := by rw [hph, Function.update_self]
  have htself : s'.tr s.next = t := by rw [htr, Function.update_self]
  -- the lists hold what they held, and perhaps the new one
  have hmem : ∀ {l l' : List ℕ} {q : Prop}, (l' = l ∨ (l' = l ++ [s.next] ∧ q)) → ∀ i ∈ l', i ∈ l ∨ (i = s.next ∧ q) := by
    intro l l' q hl i hi
    rcases hl with rfl | ⟨rfl, hq⟩
    · exact .inl hi
    · rcases List.mem_append.1 hi with hi | hi
      · exact .inl hi
      · exact .inr ⟨List.mem_singleton.1 hi, hq⟩
  have hnodup : ∀ {l l' : List ℕ} {q : Prop}, (l' = l ∨ (l' = l ++ [s.next] ∧ q)) → l.Nodup → s.next ∉ l → l'.Nodup := by
    intro l l' q hl hnd hni
    rcases hl with rfl | ⟨rfl, -⟩
    · exact hnd
    · exact List.nodup_append.2 ⟨hnd, List.nodup_singleton _, fun a ha b hb => by
        rw [List.mem_singleton.1 hb]
        rintro rfl
        exact hni ha⟩
  have hnw : ∀ i, i ∈ s.overlapping ∨ i ∈ s.blocked → i ≠ s.next := fun i hi => hne (by rw [h.waiting i hi]; exact Phase.noConfusion)
  have hne' : ∀ i ∈ s.engine, i ≠ s.next := fun i hi => hne (by rw [h.engine i hi]; exact Phase.noConfusion)
  have hno : ∀ i ∈ s.ongoing, i ≠ s.next := fun i hi => hne (h.present i hi).1
  constructor
  case fresh =>
    intro i hi
    rw [hphase i (by omega)]
    exact h.fresh i (by omega)
  case engine =>
    intro i hi
    rcases hmem hen i hi with hi | ⟨rfl, hpf⟩
    · rw [hphase i (hne' i hi)]
      exact h.engine i hi
    · exact hpself.trans hpf
  case engineNodup => exact hnodup hen h.engineNodup fun hi => hne' _ hi rfl
  case waiting =>
    rintro i (hi | hi)
    · rcases hmem hov i hi with hi | ⟨rfl, hpw, -⟩
      · rw [hphase i (hnw i (.inl hi))]
        exact h.waiting i (.inl hi)
      · exact hpself.trans hpw
    · rcases hmem hbl i hi with hi | ⟨rfl, hpw, -⟩
      · rw [hphase i (hnw i (.inr hi))]
        exact h.waiting i (.inr hi)
      · exact hpself.trans hpw
  case overlappingNodup => exact hnodup hov h.overlappingNodup fun hi => hnw _ (.inl hi) rfl
  case overlapping =>
    intro i hi
    rcases hmem hov i hi with hi | ⟨rfl, -, hs⟩
    · rw [htrans i (hnw i (.inl hi))]
      exact h.overlapping i hi
    · rw [htself]
      exact hs
  case blocked =>
    intro i hi
    rcases hmem hbl i hi with hi | ⟨rfl, -, hs⟩
    · rw [htrans i (hnw i (.inr hi))]
      exact h.blocked i hi
    · rw [htself]
      exact hs
  case blockedNodup => exact hnodup hbl h.blockedNodup fun hi => hnw _ (.inr hi) rfl
  case present =>
    intro i hi
    rcases hmem (hon.imp And.left id) i hi with hi | ⟨rfl, hpw, -⟩
    · rw [hphase i (hno i hi)]
      exact h.present i hi
    · rw [hpself]
      exact ⟨hp, hpw⟩
  case active =>
    intro i hs ha
    by_cases hi : i = s.next
    · subst hi
      rw [htself] at hs
      rw [hpself] at ha
      rcases hon with ⟨-, hna⟩ | ⟨ho, -⟩
      · rw [hna hs] at ha
        cases ha
      · rw [ho]
        exact List.mem_append_right _ (List.mem_singleton_self _)
    · rw [htrans i hi] at hs
      rw [hphase i hi] at ha
      have hi' := h.active i hs ha
      rcases hon with ⟨ho, -⟩ | ⟨ho, -⟩ <;> rw [ho]
      · exact hi'
      · exact List.mem_append_left _ hi'
  case apart =>
    have hnew : ∀ u, s.next ∈ s'.ongoing → u ∈ s.ongoing → t.snoopsLines = true → (s.tr u).snoopsLines = true →
        ¬ Transaction.SharesLine ls t (s.tr u) := by
      intro u hin hu hst hsu
      rcases hon with ⟨ho, -⟩ | ⟨-, -, hap⟩
      · rw [ho] at hin
        exact absurd rfl (hno _ hin)
      · exact hap hst u hu hsu
    intro a ha b hb hab hsa hsb
    rcases hmem (hon.imp And.left id) a ha with ha' | ⟨rfl, -⟩ <;> rcases hmem (hon.imp And.left id) b hb with hb' | ⟨rfl, -⟩
    · rw [htrans a (hno a ha'), htrans b (hno b hb')] at *
      exact h.apart a ha' b hb' hab hsa hsb
    · rw [htself] at hsb ⊢
      rw [htrans a (hno a ha')] at hsa ⊢
      exact fun hsh => hnew a hb ha' hsb hsa hsh.symm
    · rw [htself] at hsa ⊢
      rw [htrans b (hno b hb')] at hsb ⊢
      exact hnew b ha hb' hsa hsb
    · exact absurd rfl hab

theorem ListsOk.letPass {w : ℕ} (h : ListsOk ls s) (hw : s.phase w = .waiting) (hn : s'.next = s.next) (htr : s'.tr = s.tr)
    (hph : s'.phase = Function.update s.phase w .fifo) (hen : s'.engine = s.engine ++ [w]) (hon : s'.ongoing = s.ongoing ++ [w])
    (hov : s'.overlapping.Nodup ∧ ∀ i ∈ s'.overlapping, i ∈ s.overlapping ∧ i ≠ w)
    (hbl : s'.blocked.Nodup ∧ ∀ i ∈ s'.blocked, i ∈ s.blocked ∧ i ≠ w)
    (hap : (s.tr w).snoopsLines = true → ∀ u ∈ s.ongoing, (s.tr u).snoopsLines = true → ¬ Transaction.SharesLine ls (s.tr w) (s.tr u)) :
    ListsOk ls s' := by
  have hphase : ∀ i, i ≠ w → s'.phase i = s.phase i := fun i hi => by rw [hph, Function.update_of_ne hi]
  have hself : s'.phase w = .fifo := by rw [hph, Function.update_self]
  have hmem : ∀ {l : List ℕ} {i : ℕ}, i ∈ l ++ [w] → i ∈ l ∨ i = w := fun hi =>
    (List.mem_append.1 hi).imp id List.mem_singleton.1
  have hno : ∀ i ∈ s.ongoing, i ≠ w := by
    rintro i hi rfl
    exact (h.present i hi).2 hw
  have hne : ∀ i ∈ s.engine, i ≠ w := by
    rintro i hi rfl
    rw [h.engine i hi] at hw
    cases hw
  constructor
  case fresh =>
    intro i hi
    have hf := h.fresh i (hn ▸ hi)
    have hiw : i ≠ w := by
      rintro rfl
      rw [hf] at hw
      cases hw
    rw [hphase i hiw, hf]
  case engine =>
    intro i hi
    rw [hen] at hi
    rcases hmem hi with hi | rfl
    · rw [hphase i (hne i hi)]
      exact h.engine i hi
    · exact hself
  case engineNodup =>
    rw [hen]
    refine List.nodup_append.2 ⟨h.engineNodup, List.nodup_singleton _, fun a ha b hb => ?_⟩
    rw [List.mem_singleton.1 hb]
    exact hne a ha
  case waiting =>
    rintro i (hi | hi)
    · rw [hphase i (hov.2 i hi).2]
      exact h.waiting i (.inl (hov.2 i hi).1)
    · rw [hphase i (hbl.2 i hi).2]
      exact h.waiting i (.inr (hbl.2 i hi).1)
  case overlappingNodup => exact hov.1
  case overlapping => exact fun i hi => htr ▸ h.overlapping i (hov.2 i hi).1
  case blocked => exact fun i hi => htr ▸ h.blocked i (hbl.2 i hi).1
  case blockedNodup => exact hbl.1
  case present =>
    intro i hi
    rw [hon] at hi
    rcases hmem hi with hi | rfl
    · rw [hphase i (hno i hi)]
      exact h.present i hi
    · rw [hself]
      exact ⟨Phase.noConfusion, Phase.noConfusion⟩
  case active =>
    intro i hs ha
    rw [hon]
    by_cases hi : i = w
    · exact List.mem_append_right _ (List.mem_singleton.2 hi)
    · rw [hphase i hi] at ha
      exact List.mem_append_left _ (h.active i (htr ▸ hs) ha)
  case apart =>
    intro a ha b hb hab hsa hsb
    rw [hon] at ha hb
    rw [htr] at hsa hsb ⊢
    rcases hmem ha with ha' | haw <;> rcases hmem hb with hb' | hbw
    · exact h.apart a ha' b hb' hab hsa hsb
    · subst hbw
      exact fun hsh => hap hsb a ha' hsa hsh.symm
    · subst haw
      exact hap hsa b hb' hsb
    · exact absurd (haw.trans hbw.symm) hab

end Lists

/-! ### Steps -/

section Steps

variable {s s' : Orderer N} {id k : ℕ} {p : Phase}

/-- A step on one transaction that was let pass. -/
theorem OrderInv.progress (id : ℕ) (p : Phase) (h : OrderInv ls s) (hn : s'.next = s.next) (hb : s'.blocked = s.blocked) (hov : s'.overlapping = s.overlapping)
    (hen : s'.engine = s.engine) (hon : s'.ongoing = s.ongoing) (htr : ∀ i ≠ id, s'.tr i = s.tr i)
    (hid : (s'.tr id).ident = (s.tr id).ident) (hph : s'.phase = Function.update s.phase id p) (hsegs : ∀ i ≠ id, s'.segs i = s.segs i)
    (hpast : (s.phase id).past = true) (hp : p.past = true)
    (hact : (s.tr id).snoopsLines = true → p.active = true → (s.phase id).active = true)
    (htx : TxOk ls id (s'.tr id) p (s'.segs id) s'.trace)
    (hothers : ∀ i ≠ id, TxOk ls i (s.tr i) (s.phase i) (s.segs i) s'.trace) (hlost : NoLostWrite ls s'.trace) : OrderInv ls s' := by
  have hself : s.phase id ≠ .absent ∧ s.phase id ≠ .waiting ∧ s.phase id ≠ .fifo := by
    refine ⟨?_, ?_, ?_⟩ <;> (intro hq; rw [hq] at hpast; cases hpast)
  refine ⟨h.lists.move hn hb hov (fun i => ?_) hph ⟨hself.1, hself.2.1⟩ hp ⟨hen ▸ h.lists.engineNodup, fun i hi => ?_⟩
    (fun i hi => hon ▸ hi) (fun i hi _ => hon ▸ hi) fun hs ha => hon ▸ h.lists.active id hs (hact hs ha), fun i => ?_, hlost⟩
  · by_cases hi : i = id
    · subst hi
      exact hid
    · rw [htr i hi]
  · rw [hen] at hi
    refine ⟨hi, ?_⟩
    rintro rfl
    exact hself.2.2 (h.lists.engine i hi)
  · by_cases hi : i = id
    · subst hi
      rw [hph, Function.update_self]
      exact htx
    · rw [hph, Function.update_of_ne hi, htr i hi, hsegs i hi]
      exact hothers i hi

/-- A step on one snoop transaction that stays. -/
theorem OrderInv.seg {seg : Seg N} {tr' : Transaction} (seg' : Seg N) (trace : List LineEvent) (mem : Addr → Byte) (h : OrderInv ls s)
    (hk : (s.segs id)[k]? = some seg) (hid : tr'.ident = (s.tr id).ident) (hns : tr'.nSegments = (s.tr id).nSegments)
    (haddr : seg'.st.addr = seg.st.addr) (hdr : seg'.st.dsRead = seg.st.dsRead)
    (hnd : (s.tr id).snoopsLines = false → seg'.st.execDsGp = false) (hst : seg'.stage = .downstream → seg'.st.execDsGp = true)
    (hcap : seg'.st.execDsGp = true → seg'.st.dsRead = false → .capture id seg.st.addr ∈ trace)
    (htx : TxOk ls id (s.tr id) (s.phase id) (s.segs id) trace)
    (hothers : ∀ i ≠ id, TxOk ls i (s.tr i) (s.phase i) (s.segs i) trace) (hlost : NoLostWrite ls trace) :
    OrderInv ls { (s.setTr id tr').setSegs id ((s.segs id).set k seg') with mem, trace } := by
  have hpast := ((h.tx id).place (List.ne_nil_of_mem (List.mem_of_getElem? hk))).1
  refine h.progress id (s.phase id) rfl rfl rfl rfl rfl (fun i hi => Function.update_of_ne hi ..) ?_ ?_
    (fun i hi => Function.update_of_ne hi ..) hpast hpast (fun _ ha => ha) ?_ hothers hlost
  · show (Function.update s.tr id tr' id).ident = _
    rw [Function.update_self]
    exact hid
  · exact (Function.update_eq_self ..).symm
  · show TxOk ls id (Function.update s.tr id tr' id) _ (Function.update s.segs id _ id) trace
    rw [Function.update_self, Function.update_self]
    exact htx.set hk hid hns haddr hdr hnd hst hcap

theorem OrderInv.answer {forwardDVM : Fin N → Bool} {port : Fin N} {gp : SnoopGp} (h : OrderInv ls s)
    (hs : s.step ls forwardDVM (.answer id k port gp) = some s') : OrderInv ls s' := by
  simp only [Orderer.step] at hs
  split at hs
  · cases hs
  · rename_i seg hk
    split at hs
    swap
    · cases hs
    rename_i hguard
    obtain ⟨-, -, hdvm⟩ := hguard
    obtain rfl := Option.some.inj hs
    have hseg := List.mem_of_getElem? hk
    have hne := List.ne_nil_of_mem hseg
    have hid : (portDone ls (s.tr id) seg.st gp).1.ident = (s.tr id).ident := Transaction.ident_congr portDone_request
    have hns : (portDone ls (s.tr id) seg.st gp).1.nSegments = (s.tr id).nSegments :=
      (congrArg Transaction.nSegments (portDone_request : (portDone ls (s.tr id) seg.st gp).1.request = (s.tr id).request) :)
    have hst : (if (portDone ls (s.tr id) seg.st gp).2.snoopDone then Stage.snooped else .snooping) ≠ .downstream := by
      split <;> exact Stage.noConfusion
    -- a DVM snoop brings no data
    have hnd : (s.tr id).snoopsLines = false → (portDone ls (s.tr id) seg.st gp).2.execDsGp = false := by
      intro hsl
      have hk := (h.tx id).kind (.inr (.inr hne))
      have hd : (s.tr id).isDVM = true := by simpa [Transaction.snoopsLines, hk] using hsl
      simp [portDone, hdvm hd, (h.tx id).noData hsl seg hseg]
    by_cases hc : Orderer.capturesDirty (s.tr id) gp = true
    · rw [if_pos hc]
      have hcc : ∀ i ≠ id, ∀ l, (LineEvent.capture id seg.st.addr) ≠ .capture i l := by
        rintro i hi l heq
        exact hi (LineEvent.capture.inj heq).1.symm
      exact h.seg _ _ _ hk hid hns rfl rfl hnd (fun h => absurd h hst) (fun _ _ => List.mem_cons_self) ((h.tx id).capture hne _)
        (fun i hi => (h.tx i).cons (hcc i hi) fun _ _ _ _ he => by cases he) (h.noLostWrite.cons (by simp))
    · rw [if_neg hc]
      refine h.seg _ s.trace s.mem hk hid hns rfl rfl hnd (fun h => absurd h hst) (fun hx hr => ?_) (h.tx id)
        (fun i _ => h.tx i) h.noLostWrite
      refine (h.tx id).captured seg hseg ?_ hr
      -- without a capture the answer does not ask for a write-back
      have hcd : (gp.genattr.datatransfer && !(s.tr id).allowPassDirty && gp.genattr.dirty) = false := Bool.eq_false_iff.2 hc
      simp only [portDone, hcd, Bool.false_eq_true, if_false] at hx
      split at hx
      · cases hx
      · exact hx

theorem OrderInv.snoopDone {forwardDVM : Fin N → Bool} (h : OrderInv ls s) (hs : s.step ls forwardDVM (.snoopDone id k) = some s') :
    OrderInv ls s' := by
  simp only [Orderer.step] at hs
  split at hs
  · cases hs
  · rename_i seg hk
    split at hs
    swap
    · cases hs
    obtain rfl := Option.some.inj hs
    have hseg := List.mem_of_getElem? hk
    have hu : s.setTr id (s.tr id) = s := by rw [Orderer.setTr, Function.update_eq_self]
    have hst : (if seg.st.execDsGp = true then Stage.downstream else .finalizing) = .downstream → seg.st.execDsGp = true := by
      intro hst
      by_contra hx
      rw [if_neg hx] at hst
      cases hst
    have hinv := h.seg { seg with stage := if seg.st.execDsGp then .downstream else .finalizing } s.trace s.mem hk rfl rfl rfl rfl (fun hsl => (h.tx id).noData hsl seg hseg) hst ((h.tx id).captured seg hseg) (h.tx id)
      (fun i _ => h.tx i) h.noLostWrite
    rw [hu] at hinv
    exact hinv

/-- The downstream port carries out what a snoop transaction asks for: what is written back was stored for
it, and nothing was written to the line since. -/
theorem OrderInv.dsGp {forwardDVM : Fin N → Bool} (h : OrderInv ls s) (hs : s.step ls forwardDVM (.dsGp id k) = some s') :
    OrderInv ls s' := by
  simp only [Orderer.step] at hs
  split at hs
  · cases hs
  · rename_i seg hk
    split at hs
    swap
    · cases hs
    rename_i hstage
    have hseg := List.mem_of_getElem? hk
    split at hs
    · obtain rfl := Option.some.inj hs
      rename_i hread
      exact h.seg _ s.trace s.mem hk rfl rfl rfl rfl (fun hsl => (h.tx id).noData hsl seg hseg) (fun hst => by cases hst)
        (fun hx hr => (h.tx id).captured seg hseg hx hr) (h.tx id) (fun i _ => h.tx i) h.noLostWrite
    · rename_i hread
      obtain rfl := Option.some.inj hs
      have hu : s.setTr id (s.tr id) = s := by rw [Orderer.setTr, Function.update_eq_self]
      have hexec := (h.tx id).stage seg hseg hstage
      have hcap := (h.tx id).captured seg hseg hexec (Bool.eq_false_iff.2 hread)
      have hsl : (s.tr id).snoopsLines = true := by
        by_contra hsl
        rw [(h.tx id).noData (Bool.eq_false_iff.2 hsl) seg hseg] at hexec
        cases hexec
      have hcons : ∀ i, TxOk ls i (s.tr i) (s.phase i) (s.segs i) (.writeback id seg.st.addr :: s.trace) := fun i =>
        (h.tx i).cons (by simp) fun _ _ _ _ he => by cases he
      have hinv := h.seg { seg with stage := .finalizing } (.writeback id seg.st.addr :: s.trace)
        (writeAt s.mem seg.st.addr ls.size seg.st.dsData) hk rfl rfl rfl rfl
        (fun hsl => (h.tx id).noData hsl seg hseg) (fun hst => by cases hst) (fun _ _ => List.mem_cons_of_mem _ hcap) (hcons id)
        (fun i _ => hcons i) (h.noLostWrite.writeback hcap ((h.tx id).clean hsl seg hseg))
      rw [hu] at hinv
      exact hinv

/-- A snoop transaction is finalized: the transaction goes on when none is left. -/
theorem OrderInv.finalize {forwardDVM : Fin N → Bool} (h : OrderInv ls s) (hs : s.step ls forwardDVM (.finalize id k) = some s') :
    OrderInv ls s' := by
  simp only [Orderer.step] at hs
  split at hs
  · cases hs
  · rename_i seg hk
    split at hs
    swap
    · cases hs
    obtain rfl := Option.some.inj hs
    have hseg := List.mem_of_getElem? hk
    have hne := List.ne_nil_of_mem hseg
    obtain ⟨hpast, hpl⟩ := (h.tx id).place hne
    have hlen : ((s.segs id).eraseIdx k).length + 1 = (s.segs id).length := by
      obtain ⟨hlt, -⟩ := List.getElem?_eq_some_iff.1 hk
      rw [List.length_eraseIdx_of_lt hlt]
      omega
    -- the transaction is where it was, or further on
    have hgo : ∀ {s' : Orderer N} {p : Phase}, s'.next = s.next → s'.blocked = s.blocked → s'.overlapping = s.overlapping →
        s'.engine = s.engine → s'.ongoing = s.ongoing → (∀ i ≠ id, s'.tr i = s.tr i) → (s'.tr id).ident = (s.tr id).ident →
        s'.phase = Function.update s.phase id p → s'.segs = Function.update s.segs id ((s.segs id).eraseIdx k) →
        s'.trace = s.trace → p.past = true →
        TxOk ls id (s'.tr id) p ((s.segs id).eraseIdx k) s.trace → OrderInv ls s' := by
      intro s' p hn hb hov hen hon htr hid hph hsegs ht hp htx
      refine h.progress id p hn hb hov hen hon htr hid hph (fun i hi => by rw [hsegs, Function.update_of_ne hi]) hpast hp
        (fun hsl _ => by rw [hpl hsl]; rfl) ?_ (fun i _ => ht ▸ h.tx i) (ht ▸ h.noLostWrite)
      rw [hsegs, Function.update_self, ht]
      exact htx
    -- none is left
    have hlast : ∀ {tr' : Transaction} {p : Phase}, tr'.ident = (s.tr id).ident → p = .notified ∨ p = .downstream →
        ((s.tr id).snoopsLines = true → ((s.segs id).eraseIdx k).length = 0) → TxOk ls id tr' p ((s.segs id).eraseIdx k) s.trace := by
      intro tr' p hid hp hnil
      have hpp : p.past = true := by rcases hp with rfl | rfl <;> rfl
      by_cases hsl : (s.tr id).snoopsLines = true
      · rw [List.eq_nil_of_length_eq_zero (hnil hsl)]
        exact .of_nil hpp (by rcases hp with rfl | rfl <;> exact Phase.noConfusion)
      · exact (h.tx id).eraseIdx hid hne hpp (fun h => absurd h hsl) fun h => absurd h hsl
    have hfin : ∀ {tr' : Transaction}, tr'.ident = (s.tr id).ident →
        ((s.tr id).snoopsLines = true → ((s.segs id).eraseIdx k).length = 0) →
        OrderInv ls ((s.setSegs id ((s.segs id).eraseIdx k)).finalizeTr id tr') := by
      intro tr' hid hnil
      have htself : Function.update s.tr id tr' id = tr' := Function.update_self ..
      unfold Orderer.finalizeTr
      split
      · refine hgo (p := .notified) rfl rfl rfl rfl rfl (fun i hi => Function.update_of_ne hi ..) ?_ rfl rfl rfl rfl ?_
        · exact (congrArg Transaction.ident htself).trans hid
        · show TxOk ls id (Function.update s.tr id tr' id) _ _ _
          rw [htself]
          exact hlast hid (.inl rfl) hnil
      · refine hgo (p := .downstream) rfl rfl rfl rfl rfl (fun i hi => Function.update_of_ne hi ..) ?_ rfl rfl rfl rfl ?_
        · exact (congrArg Transaction.ident htself).trans hid
        · show TxOk ls id (Function.update s.tr id tr' id) _ _ _
          rw [htself]
          exact hlast hid (.inr rfl) hnil
    simp only [Orderer.finalizeSnoopTr]
    split
    · rename_i hrw
      have hsl : (s.tr id).snoopsLines = true := by
        rcases Bool.or_eq_true _ _ ▸ hrw with hr | hr
        · exact Transaction.snoopsLines_of_isReadOnce hr
        · exact Transaction.snoopsLines_of_isWrite (by rw [hr]; rfl)
      have hcount := (h.tx id).count hsl (hpl hsl)
      rw [if_pos hrw] at hcount
      split
      · refine hgo (p := s.phase id) rfl rfl rfl rfl rfl (fun i hi => Function.update_of_ne hi ..) ?_ (Function.update_eq_self ..).symm rfl
          rfl hpast ?_
        · show (Function.update s.tr id _ id).ident = _
          rw [Function.update_self]
          rfl
        · show TxOk ls id (Function.update s.tr id _ id) _ _ _
          rw [Function.update_self]
          refine (h.tx id).eraseIdx rfl hne hpast (fun h => hpl h) fun _ => ?_
          rw [if_pos hrw]
          show (s.tr id).nSegments - 1 = _
          omega
      · rename_i hz
        refine hfin ?_ fun _ => ?_
        · split <;> split <;> rfl
        · omega
    · rename_i hrw
      refine hfin rfl fun hsl => ?_
      have hcount := (h.tx id).count hsl (hpl hsl)
      rw [if_neg hrw] at hcount
      omega

/-- The downstream port carries out a transaction: a write is to lines that no other transaction snoops. -/
theorem OrderInv.downstream {forwardDVM : Fin N → Bool} (h : OrderInv ls s) (hs : s.step ls forwardDVM (.downstream id) = some s') :
    OrderInv ls s' := by
  simp only [Orderer.step] at hs
  split at hs
  swap
  · cases hs
  rename_i hph
  have hid : (Ace.downstream s.mem (s.tr id)).2.ident = (s.tr id).ident := Transaction.ident_congr downstream_request
  have hgo : ∀ {trace : List LineEvent}, TxOk ls id (Ace.downstream s.mem (s.tr id)).2 .notified (s.segs id) trace →
      (∀ i ≠ id, TxOk ls i (s.tr i) (s.phase i) (s.segs i) trace) → NoLostWrite ls trace →
      OrderInv ls { (s.setTr id (Ace.downstream s.mem (s.tr id)).2).setPhase id .notified with
        mem := (Ace.downstream s.mem (s.tr id)).1, trace } := by
    intro trace htx hothers hlost
    refine h.progress id .notified rfl rfl rfl rfl rfl (fun i hi => Function.update_of_ne hi ..) ?_ rfl (fun _ _ => rfl)
      (by rw [hph]; rfl) rfl (fun _ _ => by rw [hph]; rfl) ?_ hothers hlost
    · show (Function.update s.tr id _ id).ident = _
      rw [Function.update_self]
      exact hid
    · show TxOk ls id (Function.update s.tr id _ id) _ _ _
      rw [Function.update_self]
      exact htx
  -- only a DVM message can still have snoop transactions
  have htx : ∀ {trace : List LineEvent}, TxOk ls id (s.tr id) (s.phase id) (s.segs id) trace →
      TxOk ls id (Ace.downstream s.mem (s.tr id)).2 .notified (s.segs id) trace := by
    intro trace htx
    rw [hph] at htx
    exact htx.leave hid rfl Phase.noConfusion Phase.noConfusion
  split at hs
  · rename_i hw
    obtain rfl := Option.some.inj hs
    have hsl := Transaction.snoopsLines_of_isWrite hw
    have hmine : id ∈ s.ongoing := h.lists.active id hsl (by rw [hph]; rfl)
    refine hgo (htx ((h.tx id).cons (by simp) fun _ hne => ?_)) (fun i hi => (h.tx i).cons (by simp) fun hsi hne id' tr' he => ?_)
      (h.noLostWrite.cons (by simp))
    · have hsn := ((h.tx id).place hne).2 hsl
      rw [hph] at hsn
      cases hsn
    · obtain ⟨rfl, rfl⟩ := LineEvent.write.inj he
      have hact : i ∈ s.ongoing := h.lists.active i hsi (by rw [((h.tx i).place hne).2 hsi]; rfl)
      exact h.lists.apart i hact id hmine hi hsi hsl
  · obtain rfl := Option.some.inj hs
    exact hgo (htx (h.tx id)) (fun i _ => h.tx i) h.noLostWrite

/-- The snoop engine takes a transaction from its fifo. -/
theorem OrderInv.takeEngine {rest : List ℕ} (h : OrderInv ls s) (hen : s.engine = id :: rest) (hn : s'.next = s.next)
    (hb : s'.blocked = s.blocked) (hov : s'.overlapping = s.overlapping) (hen' : s'.engine = rest) (hon : s'.ongoing = s.ongoing)
    (htr : ∀ i ≠ id, s'.tr i = s.tr i) (hid : (s'.tr id).ident = (s.tr id).ident) (hph : s'.phase = Function.update s.phase id p)
    (hsegs : ∀ i ≠ id, s'.segs i = s.segs i) (ht : s'.trace = s.trace) (hp : p.past = true)
    (htx : TxOk ls id (s'.tr id) p (s'.segs id) s.trace) : OrderInv ls s' := by
  have hfifo : s.phase id = .fifo := h.lists.engine id (hen ▸ List.mem_cons_self)
  have hnd : id ∉ rest ∧ rest.Nodup := List.nodup_cons.1 (hen ▸ h.lists.engineNodup)
  refine ⟨h.lists.move hn hb hov (fun i => ?_) hph (by rw [hfifo]; exact ⟨Phase.noConfusion, Phase.noConfusion⟩) hp
    ⟨hen' ▸ hnd.2, fun i hi => ?_⟩ (fun i hi => hon ▸ hi) (fun i hi _ => hon ▸ hi) fun hs _ => ?_, fun i => ?_, ht ▸ h.noLostWrite⟩
  · by_cases hi : i = id
    · subst hi
      exact hid
    · rw [htr i hi]
  · rw [hen'] at hi
    refine ⟨hen ▸ List.mem_cons_of_mem _ hi, ?_⟩
    rintro rfl
    exact hnd.1 hi
  · rw [hon]
    exact h.lists.active id hs (by rw [hfifo]; rfl)
  · rw [ht, hph]
    by_cases hi : i = id
    · subst hi
      rw [Function.update_self]
      exact htx
    · rw [Function.update_of_ne hi, htr i hi, hsegs i hi]
      exact h.tx i

theorem OrderInv.engine {forwardDVM : Fin N → Bool} {proceed : Bool} (h : OrderInv ls s)
    (hs : s.step ls forwardDVM (.engine proceed) = some s') : OrderInv ls s' := by
  simp only [Orderer.step] at hs
  split at hs
  · cases hs
  · rename_i id rest hen
    have hfifo : s.phase id = .fifo := h.lists.engine id (hen ▸ List.mem_cons_self)
    have hnil : s.segs id = [] := (h.tx id).segs_eq_nil (by rw [hfifo]; rfl)
    have htx := h.tx id
    rw [hfifo, hnil] at htx
    -- the transaction ends without a snoop
    have hend : OrderInv ls (({ s with engine := rest }.setTr id { s.tr id with response := .ok }).setPhase id .notified) := by
      refine h.takeEngine (p := .notified) hen rfl rfl rfl rfl rfl (fun i hi => Function.update_of_ne hi ..) ?_ rfl (fun _ _ => rfl) rfl
        rfl ?_
      · show (Function.update s.tr id _ id).ident = _
        rw [Function.update_self]
        rfl
      · show TxOk ls id _ _ (s.segs id) _
        rw [hnil]
        exact .of_nil rfl Phase.noConfusion
    split at hs
    · obtain rfl := Option.some.inj hs
      exact hend
    · split at hs
      · split at hs
        · obtain rfl := Option.some.inj hs
          exact hend
        · cases hs
      · obtain rfl := Option.some.inj hs
        refine h.takeEngine (p := .snooping) hen rfl rfl rfl rfl rfl (fun _ _ => rfl) rfl rfl (fun i hi => Function.update_of_ne hi ..) rfl
          rfl ?_
        show TxOk ls id (s.tr id) _ (Function.update s.segs id _ id) _
        rw [Function.update_self]
        exact htx.newSegs

/-- A waiting transaction is let pass to the snoop engine. -/
theorem OrderInv.letPass {w : ℕ} (h : OrderInv ls s) (hw : s.phase w = .waiting) (hn : s'.next = s.next) (htr : s'.tr = s.tr)
    (hph : s'.phase = Function.update s.phase w .fifo) (hen : s'.engine = s.engine ++ [w]) (hon : s'.ongoing = s.ongoing ++ [w])
    (hsegs : s'.segs = s.segs) (ht : s'.trace = s.trace) (hov : s'.overlapping.Nodup ∧ ∀ i ∈ s'.overlapping, i ∈ s.overlapping ∧ i ≠ w)
    (hbl : s'.blocked.Nodup ∧ ∀ i ∈ s'.blocked, i ∈ s.blocked ∧ i ≠ w)
    (hap : (s.tr w).snoopsLines = true → ∀ u ∈ s.ongoing, (s.tr u).snoopsLines = true → ¬ Transaction.SharesLine ls (s.tr w) (s.tr u)) :
    OrderInv ls s' := by
  refine ⟨h.lists.letPass hw hn htr hph hen hon hov hbl hap, fun i => ?_, ht ▸ h.noLostWrite⟩
  have htx := h.tx i
  rw [ht, hph, htr, hsegs]
  by_cases hi : i = w
  · subst hi
    have hnil : s.segs i = [] := htx.segs_eq_nil (by rw [hw]; rfl)
    rw [hw, hnil] at htx
    rw [Function.update_self, hnil]
    exact htx.move rfl (fun _ => ⟨.inl rfl, rfl⟩) Phase.noConfusion fun _ => rfl
  · rw [Function.update_of_ne hi]
    exact htx

/-- A thread that waited for room in the fifo goes on. -/
theorem OrderInv.unblock {forwardDVM : Fin N → Bool} (h : OrderInv ls s) (hs : s.step ls forwardDVM (.unblock id) = some s') :
    OrderInv ls s' := by
  simp only [Orderer.step] at hs
  split at hs
  swap
  · cases hs
  rename_i hguard
  obtain rfl := Option.some.inj hs
  have hw := h.lists.waiting id (.inr hguard.1)
  refine h.letPass hw rfl rfl rfl rfl rfl rfl rfl ⟨h.lists.overlappingNodup, fun i hi => ⟨hi, ?_⟩⟩
    ⟨h.lists.blockedNodup.erase _, fun i hi => ?_⟩ fun hsl => ?_
  · rintro rfl
    have hsl := h.lists.overlapping i hi
    rw [h.lists.blocked i hguard.1] at hsl
    cases hsl
  · obtain ⟨hne, hi⟩ := h.lists.blockedNodup.mem_erase_iff.1 hi
    exact ⟨hi, hne⟩
  · rw [h.lists.blocked id hguard.1] at hsl
    cases hsl

/-- What the orderer gets right only when it holds: transactions that share a cacheline overlap in bytes, a
transaction that is let pass finds room in the snoop engine's fifo, and only a `ReadOnce` or `WriteUnique`
is about more than one line. -/
def OrderedStep (ls : LineSize) (s : Orderer N) : OrdererAction N → Prop
  | .transport tr => tr.snoopsLines = true →
    (∀ u ∈ s.ongoing, (s.tr u).snoopsLines = true → Transaction.SharesLine ls tr (s.tr u) → tr.overlaps (s.tr u) = true) ∧
      (s.isOverlapping tr = false → s.engine.length < fifoSize) ∧
        (tr.isReadOnce = true ∨ tr.isWriteUnique = true ∨ tr.numSegments ls ≤ 1)
  | .complete id => ∀ w ∈ s.overlapping, (s.tr id).overlaps (s.tr w) = true →
    (∀ u ∈ s.ongoing, u ≠ id → (s.tr u).snoopsLines = true → Transaction.SharesLine ls (s.tr w) (s.tr u) →
      (s.tr w).overlaps (s.tr u) = true) ∧
    ∀ u ∈ s.overlapping, u ≠ w → (s.tr id).overlaps (s.tr u) = true → (s.tr u).snoopsLines = true →
      Transaction.SharesLine ls (s.tr w) (s.tr u) → (s.tr w).overlaps (s.tr u) = true
  | _ => True

instance (ls : LineSize) (t u : Transaction) : Decidable (Transaction.SharesLine ls t u) :=
  decidable_of_iff (((t.lines ls).any fun l => decide (l ∈ u.lines ls)) = true)
    (by simp only [List.any_eq_true, decide_eq_true_eq, Transaction.SharesLine])

instance (ls : LineSize) (s : Orderer N) : ∀ a, Decidable (OrderedStep ls s a)
  | .transport tr => inferInstanceAs (Decidable (tr.snoopsLines = true → _ ∧ _ ∧ _))
  | .complete id => inferInstanceAs (Decidable (∀ w ∈ s.overlapping, (s.tr id).overlaps (s.tr w) = true → _ ∧ _))
  | .unblock _ | .engine _ | .answer .. | .snoopDone .. | .dsGp .. | .finalize .. | .downstream _ => isTrue trivial

/-- Nothing in progress overlaps, so that nothing in progress shares a line. -/
theorem apart_of_not_overlapping {t : Transaction} (ho : s.isOverlapping t = false)
    (hl : ∀ u ∈ s.ongoing, (s.tr u).snoopsLines = true → Transaction.SharesLine ls t (s.tr u) → t.overlaps (s.tr u) = true) :
    ∀ u ∈ s.ongoing, (s.tr u).snoopsLines = true → ¬ Transaction.SharesLine ls t (s.tr u) := by
  intro u hu hs hsh
  have hno := List.any_eq_false.1 ho u hu
  exact hno (hl u hu hs hsh)

theorem OrderInv.transport {forwardDVM : Fin N → Bool} {tr : Transaction} (h : OrderInv ls s) (hok : OrderedStep ls s (.transport tr))
    (hs : s.step ls forwardDVM (.transport tr) = some s') : OrderInv ls s' := by
  obtain rfl := Option.some.inj hs
  unfold Orderer.bTransport
  split
  · exact h
  · have habs : s.phase s.next = .absent := h.lists.fresh s.next le_rfl
    have hnil : s.segs s.next = [] := (h.tx s.next).segs_eq_nil (by rw [habs]; rfl)
    set t : Transaction := { tr with nSegments := tr.numSegments ls, response := .incomplete }
    -- wherever it goes
    have hgo : ∀ {s' : Orderer N} {p : Phase}, ListsOk ls s' → s'.tr = Function.update s.tr s.next t →
        s'.phase = Function.update s.phase s.next p → s'.segs = s.segs → s'.trace = s.trace → p ≠ .snooping →
        (p = .waiting ∨ p = .fifo → tr.isSnoopingTransaction = true) → OrderInv ls s' := by
      intro s' p hlists htr hph hsegs htrace hp hkind
      refine ⟨hlists, fun i => ?_, htrace ▸ h.noLostWrite⟩
      rw [htrace, hph, htr, hsegs]
      by_cases hi : i = s.next
      · subst hi
        rw [Function.update_self, Function.update_self, hnil]
        exact .arrive hkind rfl (fun hsl => (hok hsl).2.2) hp ((h.tx s.next).early (by rw [habs]; rfl))
      · rw [Function.update_of_ne hi, Function.update_of_ne hi]
        exact h.tx i
    unfold Orderer.process
    dsimp only
    split
    · rename_i hsn
      split
      · rename_i hov
        have hov' : s.isOverlapping tr = true ∧ tr.isDVM = false := by simpa using hov
        have hsl : t.snoopsLines = true := by
          show (tr.isSnoopingTransaction && !tr.isDVM) = true
          rw [hsn, hov'.2]
          rfl
        exact hgo (p := .waiting) (h.lists.arrive (t := t) (p := .waiting) rfl rfl rfl Phase.noConfusion (.inr ⟨rfl, rfl, hsl⟩) (.inl rfl)
          (.inl rfl) (.inl ⟨rfl, fun _ => rfl⟩)) rfl rfl rfl rfl Phase.noConfusion fun _ => hsn
      · rename_i hov
        have hno : tr.snoopsLines = true → s.isOverlapping tr = false := by
          intro hsl
          simp only [Transaction.snoopsLines, hsn, Bool.true_and] at hsl
          simpa [hsl] using hov
        split
        · exact hgo (p := .fifo) (h.lists.arrive (t := t) (p := .fifo) rfl rfl rfl Phase.noConfusion (.inl rfl) (.inl rfl)
            (.inr ⟨rfl, rfl⟩) (.inr ⟨rfl, Phase.noConfusion, fun hsl => apart_of_not_overlapping (hno hsl) (hok hsl).1⟩)) rfl rfl rfl rfl
            Phase.noConfusion fun _ => hsn
        · rename_i hfull
          have hsl : t.snoopsLines = false := by
            by_contra hsl
            have hsl : tr.snoopsLines = true := Bool.not_eq_false _ ▸ hsl
            exact hfull ((hok hsl).2.1 (hno hsl))
          exact hgo (p := .waiting) (h.lists.arrive (t := t) (p := .waiting) rfl rfl rfl Phase.noConfusion (.inl rfl) (.inr ⟨rfl, rfl, hsl⟩)
            (.inl rfl) (.inl ⟨rfl, fun _ => rfl⟩)) rfl rfl rfl rfl Phase.noConfusion fun _ => hsn
    · rename_i hsn
      have hsl : t.snoopsLines = false := by
        show (tr.isSnoopingTransaction && !tr.isDVM) = false
        rw [Bool.eq_false_iff.2 hsn]
        rfl
      refine hgo (p := .downstream) (h.lists.arrive (t := t) (p := .downstream) rfl rfl rfl Phase.noConfusion (.inl rfl) (.inl rfl) (.inl rfl)
        (.inr ⟨rfl, Phase.noConfusion, fun hs => ?_⟩)) rfl rfl rfl rfl Phase.noConfusion fun hk => ?_
      · rw [hsl] at hs
        cases hs
      · rcases hk with hk | hk <;> cases hk

/-- The transactions that waited for a transaction are let pass where nothing else is in their way. -/
theorem OrderInv.restart {tr : Transaction} {ws : List ℕ} (h : OrderInv ls s) (hmem : ∀ w ∈ ws, w ∈ s.overlapping) (hnd : ws.Nodup)
    (hok : ∀ w ∈ ws, tr.overlaps (s.tr w) = true → ∀ u, u ∈ s.ongoing ∨ (u ∈ ws ∧ u ≠ w ∧ tr.overlaps (s.tr u) = true) →
      (s.tr u).snoopsLines = true → Transaction.SharesLine ls (s.tr w) (s.tr u) → (s.tr w).overlaps (s.tr u) = true) :
    OrderInv ls (Orderer.restartOverlapping tr ws s) := by
  induction ws generalizing s with
  | nil => exact h
  | cons w ws ih =>
    obtain ⟨hw, hnd⟩ := List.nodup_cons.1 hnd
    have hws : ∀ v ∈ ws, v ∈ s.overlapping ∧ v ≠ w := fun v hv => ⟨hmem v (List.mem_cons_of_mem _ hv), fun he => hw (he ▸ hv)⟩
    have hwo := hmem w List.mem_cons_self
    simp only [Orderer.restartOverlapping]
    split
    · rename_i hgo
      obtain ⟨hov, hno⟩ : tr.overlaps (s.tr w) = true ∧ s.isOverlapping (s.tr w) = false := by simpa using hgo
      have hsl := h.lists.overlapping w hwo
      have hsn : (s.tr w).isSnoopingTransaction = true := (Bool.and_eq_true _ _ ▸ hsl).1
      rw [if_pos hsn]
      have hwait := h.lists.waiting w (.inl hwo)
      refine ih (s := Orderer.toSnoopEngine { s with overlapping := s.overlapping.erase w, ongoing := s.ongoing ++ [w] } w)
        (h.letPass hwait rfl rfl rfl rfl rfl rfl rfl ⟨h.lists.overlappingNodup.erase _, fun i hi => ?_⟩
        ⟨h.lists.blockedNodup, fun i hi => ⟨hi, ?_⟩⟩ fun _ => ?_) (fun v hv => ?_) hnd fun v hv hvo u hu => ?_
      · obtain ⟨hne, hi⟩ := h.lists.overlappingNodup.mem_erase_iff.1 hi
        exact ⟨hi, hne⟩
      · rintro rfl
        rw [h.lists.blocked i hi] at hsl
        cases hsl
      · exact apart_of_not_overlapping hno fun u hu => hok w List.mem_cons_self hov u (.inl hu)
      · exact h.lists.overlappingNodup.mem_erase_iff.2 ⟨(hws v hv).2, (hws v hv).1⟩
      · have hu' : u ∈ s.ongoing ∨ (u ∈ w :: ws ∧ u ≠ v ∧ tr.overlaps (s.tr u) = true) := by
          rcases hu with hu | hu
          · rcases List.mem_append.1 hu with hu | hu
            · exact .inl hu
            · obtain rfl := List.mem_singleton.1 hu
              exact .inr ⟨List.mem_cons_self, (hws v hv).2.symm, hov⟩
          · exact .inr ⟨List.mem_cons_of_mem _ hu.1, hu.2⟩
        exact hok v (List.mem_cons_of_mem _ hv) hvo u hu'
    · exact ih h (fun v hv => (hws v hv).1) hnd fun v hv hvo u hu =>
        hok v (List.mem_cons_of_mem _ hv) hvo u (hu.imp_right fun hu => ⟨List.mem_cons_of_mem _ hu.1, hu.2⟩)

/-- A transaction completes, and what waited for it is let pass. -/
theorem OrderInv.complete {forwardDVM : Fin N → Bool} (h : OrderInv ls s) (hok : OrderedStep ls s (.complete id))
    (hs : s.step ls forwardDVM (.complete id) = some s') : OrderInv ls s' := by
  simp only [Orderer.step] at hs
  split at hs
  swap
  · cases hs
  rename_i hph
  split at hs
  swap
  · cases hs
  obtain rfl := Option.some.inj hs
  have hmem : ∀ {i}, i ∈ s.ongoing.filter (· ≠ id) ↔ i ∈ s.ongoing ∧ i ≠ id := by simp
  have hret : OrderInv ls { s.setPhase id .returned with ongoing := s.ongoing.filter (· ≠ id), trace := .complete id :: s.trace } := by
    have htx : ∀ i, TxOk ls i (s.tr i) (s.phase i) (s.segs i) (.complete id :: s.trace) := fun i =>
      (h.tx i).cons (by simp) fun _ _ _ _ he => by cases he
    refine ⟨h.lists.move (p := .returned) rfl rfl rfl (fun _ => rfl) rfl (by rw [hph]; exact ⟨Phase.noConfusion, Phase.noConfusion⟩) rfl
      ⟨h.lists.engineNodup, fun i hi => ⟨hi, ?_⟩⟩ (fun i hi => (hmem.1 hi).1) (fun i hi hne => hmem.2 ⟨hi, hne⟩) (fun _ ha => by cases ha),
      fun i => ?_, h.noLostWrite.cons (by simp)⟩
    · rintro rfl
      rw [h.lists.engine i hi] at hph
      cases hph
    · show TxOk ls i (s.tr i) (Function.update s.phase id .returned i) (s.segs i) _
      by_cases hi : i = id
      · subst hi
        rw [Function.update_self]
        have hi := htx i
        rw [hph] at hi
        exact hi.leave rfl rfl Phase.noConfusion Phase.noConfusion
      · rw [Function.update_of_ne hi]
        exact htx i
  exact hret.restart (fun w hw => hw) h.lists.overlappingNodup fun w hw hov u hu => by
    rcases hu with hu | ⟨hu, hne, huo⟩
    · exact (hok w hw hov).1 u (hmem.1 hu).1 (hmem.1 hu).2
    · exact (hok w hw hov).2 u hu hne huo

end Steps

/-! ### Runs -/

section Runs

variable {s s' : Orderer N} {forwardDVM : Fin N → Bool}

theorem OrderInv.step {a : OrdererAction N} (h : OrderInv ls s) (hok : OrderedStep ls s a) (hs : s.step ls forwardDVM a = some s') :
    OrderInv ls s' := by
  cases a with
  | transport tr => exact h.transport hok hs
  | unblock id => exact h.unblock hs
  | engine proceed => exact h.engine hs
  | answer id k port gp => exact h.answer hs
  | snoopDone id k => exact h.snoopDone hs
  | dsGp id k => exact h.dsGp hs
  | finalize id k => exact h.finalize hs
  | downstream id => exact h.downstream hs
  | complete id => exact h.complete hok hs

theorem OrderInv.init (tr : ℕ → Transaction) (mem : Addr → Byte) : OrderInv ls (Orderer.init tr mem : Orderer N) where
  lists := by constructor <;> simp [Orderer.init, Phase.active]
  tx id := by constructor <;> simp [Orderer.init]
  noLostWrite := by
    intro id line t ht
    cases List.suffix_nil.1 ht

/-- In every run whose steps are as `OrderedStep` asks, the orderer keeps its promise. -/
theorem ordered_of_reach {tr : ℕ → Transaction} {mem : Addr → Byte}
    (h : Reach (fun s a => Orderer.step ls s forwardDVM a) (OrderedStep ls) (Orderer.init tr mem) s) : Ordered ls s :=
  (h.invariant (I := OrderInv ls) (.init tr mem) fun hinv hok hs => hinv.step hok hs).ordered

/-- A write of four bytes to an address by an ACE-Lite master. -/
def liteWrite (port : ℕ) (address : Addr) : Transaction where
  portId := Transaction.aceLiteIdOffset + port
  cmd := .write .writeUnique
  address := address
  dataLength := 4
  data := fun _ => 0xff
  genattr := { domain := .inner }

/-- A cache answers with the dirty line, or without data. -/
def snoopWith (dirty : Bool) : SnoopGp where
  data := fun _ => 0
  genattr := { datatransfer := dirty, dirty := dirty }
  response := .ok

/-- Two writes to the same bytes: the second waits for the first. -/
def overlappingWrites : List (OrdererAction 1) :=
  [.transport (liteWrite 0 0x1000), .transport (liteWrite 1 0x1000), .engine true, .answer 0 0 0 (snoopWith true), .snoopDone 0 0,
    .dsGp 0 0, .finalize 0 0, .downstream 0, .complete 0, .engine true, .answer 1 0 0 (snoopWith false), .snoopDone 1 0, .finalize 1 0,
    .downstream 1, .complete 1]

theorem ordered_overlappingWrites : ∃ s : Orderer 1,
    run (fun s a => Orderer.step .default s (fun _ => false) a) (Orderer.init (fun _ => liteWrite 0 0) fun _ => 0) overlappingWrites = some s ∧
      s.phase 1 = .returned ∧ Ordered .default s := by
  have hrun : (run (fun s a => Orderer.step .default s (fun _ => false) a)
      (Orderer.init (fun _ => liteWrite 0 0) fun _ => 0 : Orderer 1) overlappingWrites).any
      (fun s => decide (s.phase 1 = .returned)) = true := by
    decide +kernel
  obtain ⟨s, hs, hret⟩ := (Option.any_eq_true _ _).1 hrun
  exact ⟨s, hs, of_decide_eq_true hret, ordered_of_reach (Reach.refl.of_run (by decide +kernel) hs)⟩

/-- A write to a line. -/
def LineEvent.writesTo (ls : LineSize) (line : Addr) : LineEvent → Bool
  | .write _ tr => decide (line ∈ tr.lines ls)
  | _ => false

/-- The last event writes back data that is older than a write to its line. -/
def lostWrite (ls : LineSize) : List LineEvent → Bool
  | .writeback id line :: t => (List.range t.length).any fun n =>
    match t.drop n with
    | .capture i l :: _ => decide (i = id) && decide (l = line) && (t.take n).any (LineEvent.writesTo ls line)
    | _ => false
  | _ => false

theorem not_noLostWrite_of_lostWrite {trace : List LineEvent} (h : lostWrite ls trace = true) : ¬ NoLostWrite ls trace := by
  unfold lostWrite at h
  split at h
  · rename_i id line t
    intro hno
    obtain ⟨n, -, hn⟩ := List.any_eq_true.1 h
    split at hn
    · rename_i i l rest hdrop
      simp only [Bool.and_eq_true, decide_eq_true_eq] at hn
      obtain ⟨⟨rfl, rfl⟩, hw⟩ := hn
      obtain ⟨e, he, hwe⟩ := List.any_eq_true.1 hw
      unfold LineEvent.writesTo at hwe
      split at hwe
      · have hsplit : t = t.take n ++ .capture i l :: rest := by rw [← hdrop, List.take_append_drop]
        exact (hno i l t List.suffix_rfl).2 _ _ hsplit _ _ he (of_decide_eq_true hwe)
      · cases hwe
    · cases hn
  · cases h

/-- Two writes to different bytes of a line, up to where both are under way. -/
def writesInOneLine : List (OrdererAction 1) :=
  [.transport (liteWrite 0 0x1000), .transport (liteWrite 1 0x1020), .engine true, .engine true]

/-- The second write overtakes the first, whose snoop has already taken the dirty line. -/
def overtaking : List (OrdererAction 1) :=
  [.answer 0 0 0 (snoopWith true), .answer 1 0 0 (snoopWith false), .snoopDone 1 0, .finalize 1 0, .downstream 1, .complete 1,
    .snoopDone 0 0, .dsGp 0 0]

/-- **A lost write**: both writes are in progress in one cacheline, and the dirty line that was snooped for
the first is written back over what the second has written. -/
theorem lostWrite_of_overtaking : ∃ s₁ s₂ : Orderer 1,
    Reach (fun s a => Orderer.step .default s (fun _ => false) a) anyStep (Orderer.init (fun _ => liteWrite 0 0) fun _ => 0) s₁ ∧
      Reach (fun s a => Orderer.step .default s (fun _ => false) a) anyStep s₁ s₂ ∧ ¬ Ordered .default s₁ ∧ ¬ Ordered .default s₂ ∧
        s₂.phase 1 = .returned ∧ s₂.mem 0x1020 = 0 := by
  have hrun : (run (fun s a => Orderer.step .default s (fun _ => false) a)
      (Orderer.init (fun _ => liteWrite 0 0) fun _ => 0 : Orderer 1) writesInOneLine).any (fun s₁ =>
        decide (s₁.ongoing = [0, 1]) && (s₁.tr 0).snoopsLines && (s₁.tr 1).snoopsLines &&
          decide (Transaction.SharesLine .default (s₁.tr 0) (s₁.tr 1)) &&
        (run (fun s a => Orderer.step .default s (fun _ => false) a) s₁ overtaking).any fun s₂ =>
          lostWrite .default s₂.trace && decide (s₂.phase 1 = .returned) && decide (s₂.mem 0x1020 = 0)) = true := by
    decide +kernel
  obtain ⟨s₁, h₁, hok⟩ := (Option.any_eq_true _ _).1 hrun
  simp only [Bool.and_eq_true, decide_eq_true_eq] at hok
  obtain ⟨⟨⟨⟨hon, hs0⟩, hs1⟩, hsh⟩, hrun₂⟩ := hok
  obtain ⟨s₂, h₂, hok⟩ := (Option.any_eq_true _ _).1 hrun₂
  simp only [Bool.and_eq_true, decide_eq_true_eq] at hok
  obtain ⟨⟨hlost, hret⟩, hmem⟩ := hok
  refine ⟨s₁, s₂, reach_of_run h₁, reach_of_run h₂, fun ho => ?_, fun ho => not_noLostWrite_of_lostWrite hlost ho.noLostWrite, hret, hmem⟩
  exact ho.apart 0 1 (.inl (by simp [hon])) (.inl (by simp [hon])) (by decide) hs0 hs1 hsh

end Runs

end LibSystemCTLM.Ace
