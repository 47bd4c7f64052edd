import LibSystemCTLM.Foundation.Lines
import LibSystemCTLM.Tlm.Payload
import Mathlib.Data.List.Basic

/-!
# Stores past the cache

A payload is stored in pieces of a line at most. `HandleStore` of `cache-chi.h` writes a piece to the line if it has it
for itself, gets the line first, or sends the piece past the cache as a `WriteUnique`; in a region that is not
shareable `WriteNoSnp` sends all of them.

A piece that is sent ends where its line ends, but the next one is taken to start 64 bytes on, and all of it is sent
as `Full` if the byte enables of the payload are all set. So the pieces cover the payload exactly if those that are
sent are aligned, or the last, and those that are `Full` whole lines (`nonCached_iff`).

What other nodes do in between, and the random choices, are an environment that says what each turn of the loop of
`HandleStore` finds.
-/

namespace LibSystemCTLM.Chi.NonCached

open Foundation Tlm

/-- How a piece is written. -/
inductive Kind where
  | full | ptl
  /-- To the line in the cache. -/
  | line
  deriving DecidableEq

/-- The data of a piece, in its line, and the number of bytes that the store is taken to go on by. -/
structure Piece where
  kind : Kind
  tag : Addr
  data : ℕ → Byte
  byteEnable : ℕ → Bool
  /-- How many bytes were gone through to copy them. -/
  copied : ℕ
  n : ℕ

section Stores

variable (gp : GenericPayload) (pos : ℕ)

/-- `gp.get_address() + pos`, which `addr` is at each turn. -/
def addr : Addr := gp.address + BitVec.ofNat 64 pos

/-- `get_line_offset`. -/
def lineOffset : ℕ := offsetOf 6 (addr gp pos)

/-- `ToWrite`. -/
def toWrite : ℕ := min (gp.dataLength - pos) (64 - lineOffset gp pos)

/-- `CopyDataNonCached`, and likewise `CacheLine::Write`. -/
def copyData (kind : Kind) (n : ℕ) : Piece where
  kind := kind
  tag := lineOf 6 (addr gp pos)
  data k := if lineOffset gp pos ≤ k ∧ k < lineOffset gp pos + toWrite gp pos then gp.data (pos + (k - lineOffset gp pos)) else 0
  byteEnable k := decide (lineOffset gp pos ≤ k ∧ k < lineOffset gp pos + toWrite gp pos) && gp.enabled (pos + (k - lineOffset gp pos))
  copied := toWrite gp pos
  n := n

/-- `AllBytesEnabled`. -/
def allBytesEnabled : Bool := decide (64 ≤ gp.byteEnable.length) && gp.byteEnable.all fun b => decide (b = Tlm.byteEnabled)

def writeUniqueFull : Piece := copyData gp pos .full 64

def writeUniquePtl : Piece := copyData gp pos .ptl (min (gp.dataLength - pos) 64)

/-- `WriteNoSnp` of the cache, whatever the opcode. -/
def writeNoSnpPiece : Piece := copyData gp pos (if allBytesEnabled gp = true then .full else .ptl) (min (gp.dataLength - pos) 64)

def writeLine : Piece := copyData gp pos .line (toWrite gp pos)

/-- The loop of `cache_chi::WriteNoSnp`: the pieces, and where the loop ends. -/
def writeNoSnpFrom : ℕ → ℕ → List Piece × ℕ
  | 0, pos => ([], pos)
  | fuel + 1, pos =>
    if pos < gp.dataLength then
      let p := writeNoSnpPiece gp pos
      let rest := writeNoSnpFrom fuel (pos + p.n)
      (p :: rest.1, rest.2)
    else ([], pos)

/-- `cache_chi::WriteNoSnp`. There are not more pieces than bytes. -/
def writeNoSnp : List Piece × ℕ := writeNoSnpFrom gp gp.dataLength 0

/-- What a turn of the loop of `HandleStore` finds. -/
structure Env where
  /-- `m_monitor.IsSet`. -/
  monitored : Bool
  inCache : Bool
  isUnique : Bool
  /-- `HasExclusiveOkay`, behind a `CleanUnique`. -/
  exclusiveOkay : Bool
  /-- `GetRandomInt(2)`. -/
  randomInt : ℕ

/-- What a turn does. -/
inductive Turn where
  | leave
  /-- The line is cleaned or read, or made to be unique. -/
  | again
  | piece (p : Piece)

def turn (exclusive : Bool) (e : Env) : Turn :=
  if exclusive = true ∧ e.monitored = false then .leave
  else if e.inCache = true then
    if e.isUnique = true then .piece (writeLine gp pos)
    else if exclusive = true ∧ e.exclusiveOkay = false then .leave
    else .again
  else if exclusive = true ∨ e.randomInt = 0 then .again
  else if allBytesEnabled gp = true then .piece (writeUniqueFull gp pos)
  else .piece (writeUniquePtl gp pos)

/-- The turns of the loop of `HandleStore` so far: the pieces, and where the loop is. -/
def handleStoreFrom (exclusive : Bool) : List Env → ℕ → List Piece × ℕ
  | [], pos => ([], pos)
  | e :: es, pos =>
    if pos < gp.dataLength then
      match turn gp pos exclusive e with
      | .leave => ([], pos)
      | .again => handleStoreFrom exclusive es pos
      | .piece p =>
        let rest := handleStoreFrom exclusive es (pos + p.n)
        (p :: rest.1, rest.2)
    else ([], pos)

def handleStore (exclusive : Bool) (es : List Env) : List Piece × ℕ := handleStoreFrom gp exclusive es 0

end Stores

/-! ### The property -/

/-- What a piece writes. -/
def Piece.writes (p : Piece) : List (Addr × Byte) :=
  (List.range 64).filterMap fun k => if p.byteEnable k = true then some (p.tag + BitVec.ofNat 64 k, p.data k) else none

/-- The enabled bytes among `n` of a payload, at their addresses. -/
def span (gp : GenericPayload) (pos n : ℕ) : List (Addr × Byte) :=
  (List.range n).filterMap fun i => if gp.enabled (pos + i) = true then some (addr gp (pos + i), gp.data (pos + i)) else none

/-- A piece goes on by what it copied, and is a whole line if it is `Full`. -/
structure Piece.Right (p : Piece) : Prop where
  advance : p.n = p.copied
  full : p.kind = .full → ∀ k < 64, p.byteEnable k = true

/-- **The pieces cover the payload** so far: they write the enabled bytes, each once at its address, and no others. -/
structure Covers (gp : GenericPayload) (r : List Piece × ℕ) : Prop where
  right : ∀ p ∈ r.1, p.Right
  inside : r.2 ≤ gp.dataLength
  writes : r.1.flatMap Piece.writes = span gp 0 r.2

/-! ### The condition -/

/-- A piece that is sent: a whole line if it is `Full`, and else aligned or the last. -/
def FairPiece (gp : GenericPayload) (pos : ℕ) : Prop :=
  if allBytesEnabled gp = true then lineOffset gp pos = 0 ∧ pos + 64 ≤ gp.dataLength
  else lineOffset gp pos = 0 ∨ lineOffset gp pos + (gp.dataLength - pos) ≤ 64

/-- The turns of a run of `HandleStore` that send a piece are fair. -/
def FairTurns (gp : GenericPayload) (exclusive : Bool) : List Env → ℕ → Prop
  | [], _ => True
  | e :: es, pos => pos < gp.dataLength →
    match turn gp pos exclusive e with
    | .leave => True
    | .again => FairTurns gp exclusive es pos
    | .piece p => (p.kind ≠ .line → FairPiece gp pos) ∧ FairTurns gp exclusive es (pos + p.n)

/-- A payload that `WriteNoSnp` covers. -/
def FairStore (gp : GenericPayload) : Prop :=
  gp.dataLength = 0 ∨
    if allBytesEnabled gp = true then lineOffset gp 0 = 0 ∧ 64 ∣ gp.dataLength
    else lineOffset gp 0 = 0 ∨ lineOffset gp 0 + gp.dataLength ≤ 64

variable {gp : GenericPayload} {pos n : ℕ} {kind : Kind}

/-! ### A piece -/

theorem lineOffset_lt (gp : GenericPayload) (pos : ℕ) : lineOffset gp pos < 64 := offsetOf_lt (by decide) _

theorem addr_add (gp : GenericPayload) (pos n : ℕ) : addr gp (pos + n) = addr gp pos + BitVec.ofNat 64 n := by
  rw [addr, addr, BitVec.ofNat_add, BitVec.add_assoc]

theorem tag_add (gp : GenericPayload) (pos n : ℕ) : lineOf 6 (addr gp pos) + BitVec.ofNat 64 (lineOffset gp pos + n) = addr gp (pos + n) := by
  rw [BitVec.ofNat_add, ← BitVec.add_assoc, lineOffset, lineOf_add_offsetOf, addr_add]

/-- A piece that ends in its line leaves the next one aligned. -/
theorem lineOffset_add (gp : GenericPayload) (pos n : ℕ) : lineOffset gp (pos + n) = (lineOffset gp pos + n) % 64 := by
  rw [lineOffset, lineOffset, addr_add, offsetOf_eq (by decide), offsetOf_eq (by decide), BitVec.toNat_add, BitVec.toNat_ofNat]
  omega

theorem span_add (gp : GenericPayload) (pos m n : ℕ) : span gp pos (m + n) = span gp pos m ++ span gp (pos + m) n := by
  rw [span, List.range_add, List.filterMap_append, List.filterMap_map]
  refine congrArg (span gp pos m ++ ·) (List.filterMap_congr fun i _ => ?_)
  simp only [Function.comp_apply, Nat.add_assoc]

theorem writes_copyData (gp : GenericPayload) (pos : ℕ) (kind : Kind) (n : ℕ) : (copyData gp pos kind n).writes = span gp pos (toWrite gp pos) := by
  have hlt := lineOffset_lt gp pos
  have hle : lineOffset gp pos + toWrite gp pos ≤ 64 := by
    rw [toWrite]
    omega
  have hcut : List.range 64 = List.range (lineOffset gp pos) ++ ((List.range (toWrite gp pos)).map (lineOffset gp pos + ·) ++
      (List.range (64 - (lineOffset gp pos + toWrite gp pos))).map (lineOffset gp pos + toWrite gp pos + ·)) := by
    rw [← List.append_assoc, ← List.range_add, ← List.range_add, Nat.add_sub_cancel' hle]
  have hbefore : (List.range (lineOffset gp pos)).filterMap (fun k => if (copyData gp pos kind n).byteEnable k = true then
      some ((copyData gp pos kind n).tag + BitVec.ofNat 64 k, (copyData gp pos kind n).data k) else none) = [] := by
    rw [List.filterMap_eq_nil_iff]
    intro k hk
    rw [List.mem_range] at hk
    simp [copyData, show ¬lineOffset gp pos ≤ k by omega]
  have hbehind : ((List.range (64 - (lineOffset gp pos + toWrite gp pos))).map (lineOffset gp pos + toWrite gp pos + ·)).filterMap
      (fun k => if (copyData gp pos kind n).byteEnable k = true then
        some ((copyData gp pos kind n).tag + BitVec.ofNat 64 k, (copyData gp pos kind n).data k) else none) = [] := by
    rw [List.filterMap_map, List.filterMap_eq_nil_iff]
    intro k _
    simp [copyData]
  rw [Piece.writes, hcut, List.filterMap_append, List.filterMap_append, hbefore, hbehind, List.nil_append, List.append_nil, List.filterMap_map, span]
  refine List.filterMap_congr fun i hi => ?_
  rw [List.mem_range] at hi
  have hin : lineOffset gp pos ≤ lineOffset gp pos + i ∧ lineOffset gp pos + i < lineOffset gp pos + toWrite gp pos := by omega
  simp only [Function.comp_apply, copyData, hin, and_self, decide_true, Bool.true_and, if_true, Nat.add_sub_cancel_left, tag_add]

theorem enabled_of_allBytesEnabled (h : allBytesEnabled gp = true) (k : ℕ) : gp.enabled k = true := by
  rw [allBytesEnabled, Bool.and_eq_true, decide_eq_true_eq, List.all_eq_true] at h
  have hlt : k % gp.byteEnable.length < gp.byteEnable.length := Nat.mod_lt _ (by omega)
  have hb : gp.byteEnable[k % gp.byteEnable.length] = Tlm.byteEnabled := of_decide_eq_true (h.2 _ (List.getElem_mem hlt))
  rw [GenericPayload.enabled, List.getElem?_eq_getElem hlt, hb, decide_eq_true rfl, Bool.or_true]

theorem right_full (hall : allBytesEnabled gp = true) (hn : n = 64 ∨ n = min (gp.dataLength - pos) 64) :
    (copyData gp pos .full n).Right ↔ lineOffset gp pos = 0 ∧ pos + 64 ≤ gp.dataLength := by
  constructor
  · intro h
    have hfirst := h.full rfl 0 (by decide)
    have hlast := h.full rfl 63 (by decide)
    simp only [copyData, Bool.and_eq_true, decide_eq_true_eq] at hfirst hlast
    have hend := hlast.1.2
    rw [toWrite] at hend
    omega
  · rintro ⟨hoff, hlen⟩
    have htoWrite : toWrite gp pos = 64 := by
      rw [toWrite]
      omega
    refine ⟨?_, fun _ k hk => ?_⟩
    · change n = toWrite gp pos
      omega
    · simp [copyData, hoff, htoWrite, hk, enabled_of_allBytesEnabled hall]

theorem right_ptl (hlt : pos < gp.dataLength) :
    (writeUniquePtl gp pos).Right ↔ lineOffset gp pos = 0 ∨ lineOffset gp pos + (gp.dataLength - pos) ≤ 64 := by
  have hoff := lineOffset_lt gp pos
  constructor
  · intro h
    have hadvance : min (gp.dataLength - pos) 64 = min (gp.dataLength - pos) (64 - lineOffset gp pos) := h.advance
    omega
  · intro h
    refine ⟨?_, nofun⟩
    change min (gp.dataLength - pos) 64 = min (gp.dataLength - pos) (64 - lineOffset gp pos)
    omega

/-- A piece that is right writes what the store goes on by. -/
theorem span_of_right (h : (copyData gp pos kind n).Right) : (copyData gp pos kind n).writes = span gp pos n ∧ n ≤ gp.dataLength - pos := by
  have hn : n = toWrite gp pos := h.advance
  refine ⟨by rw [writes_copyData, ← hn], ?_⟩
  rw [hn]
  exact Nat.min_le_left _ _

/-! ### The loops -/

/-- The pieces of a loop from a place on. -/
structure CoversFrom (gp : GenericPayload) (pos : ℕ) (r : List Piece × ℕ) : Prop where
  start : pos ≤ r.2
  inside : r.2 ≤ gp.dataLength
  writes : r.1.flatMap Piece.writes = span gp pos (r.2 - pos)

theorem CoversFrom.nil (h : pos ≤ gp.dataLength) : CoversFrom gp pos ([], pos) :=
  ⟨le_refl _, h, by rw [Nat.sub_self]; rfl⟩

theorem CoversFrom.cons {r : List Piece × ℕ} (hp : (copyData gp pos kind n).Right)
    (h : CoversFrom gp (pos + n) r) : CoversFrom gp pos (copyData gp pos kind n :: r.1, r.2) := by
  obtain ⟨hwrites, -⟩ := span_of_right hp
  have hstart := h.start
  refine ⟨le_trans (Nat.le_add_right _ _) hstart, h.inside, ?_⟩
  rw [List.flatMap_cons, hwrites, h.writes, ← span_add]
  exact congrArg (span gp pos) (by simp only at hstart ⊢; omega)

theorem turn_piece {exclusive : Bool} {e : Env} {p : Piece} (h : turn gp pos exclusive e = .piece p) :
    p = copyData gp pos p.kind p.n ∧ (pos < gp.dataLength → (p.Right ↔ (p.kind ≠ .line → FairPiece gp pos))) := by
  rw [turn] at h
  split_ifs at h with _ _ _ _ _ hall
  · cases h
    exact ⟨rfl, fun _ => ⟨fun _ hne => absurd rfl hne, fun _ => ⟨rfl, nofun⟩⟩⟩
  · cases h
    refine ⟨rfl, fun _ => ?_⟩
    rw [FairPiece, if_pos hall]
    exact (right_full hall (.inl rfl)).trans ⟨fun h _ => h, fun h => h nofun⟩
  · cases h
    refine ⟨rfl, fun hlt => ?_⟩
    rw [FairPiece, if_neg hall]
    exact (right_ptl hlt).trans ⟨fun h _ => h, fun h => h nofun⟩

theorem handleStoreFrom_covers {exclusive : Bool} {es : List Env} (hpos : pos ≤ gp.dataLength)
    (h : ∀ p ∈ (handleStoreFrom gp exclusive es pos).1, p.Right) : CoversFrom gp pos (handleStoreFrom gp exclusive es pos) := by
  induction es generalizing pos with
  | nil => exact .nil hpos
  | cons e es ih =>
    rw [handleStoreFrom] at h ⊢
    split_ifs at h ⊢ with hlt
    · cases hturn : turn gp pos exclusive e with
      | leave => exact .nil hpos
      | again =>
        rw [hturn] at h
        exact ih hpos h
      | piece p =>
        rw [hturn] at h
        obtain ⟨hp, -⟩ := turn_piece hturn
        have hright : p.Right := h p List.mem_cons_self
        rw [hp] at hright
        have hle := (span_of_right hright).2
        have hrest := ih (by omega : pos + p.n ≤ gp.dataLength) fun q hq => h q (List.mem_cons_of_mem _ hq)
        have hcons := hrest.cons hright
        rw [← hp] at hcons
        exact hcons
    · exact .nil hpos

theorem fairTurns_iff {exclusive : Bool} {es : List Env} :
    (∀ p ∈ (handleStoreFrom gp exclusive es pos).1, p.Right) ↔ FairTurns gp exclusive es pos := by
  induction es generalizing pos with
  | nil => simp [handleStoreFrom, FairTurns]
  | cons e es ih =>
    rw [handleStoreFrom, FairTurns]
    by_cases hlt : pos < gp.dataLength
    · rw [if_pos hlt, forall_prop_of_true hlt]
      cases hturn : turn gp pos exclusive e with
      | leave => simp
      | again => exact ih
      | piece p =>
        simp only [List.forall_mem_cons]
        rw [(turn_piece hturn).2 hlt, ih]
    · rw [if_neg hlt]
      exact ⟨fun _ h => absurd h hlt, fun _ => nofun⟩

theorem right_writeNoSnpPiece (hlt : pos < gp.dataLength) : (writeNoSnpPiece gp pos).Right ↔ FairPiece gp pos := by
  rw [writeNoSnpPiece, FairPiece]
  split_ifs with hall
  · exact right_full hall (.inr rfl)
  · exact right_ptl hlt

theorem writeNoSnpFrom_covers {fuel : ℕ} (hpos : pos ≤ gp.dataLength) (h : ∀ p ∈ (writeNoSnpFrom gp fuel pos).1, p.Right) :
    CoversFrom gp pos (writeNoSnpFrom gp fuel pos) := by
  induction fuel generalizing pos with
  | zero => exact .nil hpos
  | succ fuel ih =>
    rw [writeNoSnpFrom] at h ⊢
    split_ifs at h ⊢
    · have hright : (writeNoSnpPiece gp pos).Right := h _ List.mem_cons_self
      have hle : (writeNoSnpPiece gp pos).n ≤ gp.dataLength - pos := (span_of_right hright).2
      have hrest := ih (by omega : pos + (writeNoSnpPiece gp pos).n ≤ gp.dataLength) fun q hq => h q (List.mem_cons_of_mem _ hq)
      exact hrest.cons hright
    · exact .nil hpos

/-- Each piece goes on by a byte at least, so the loop ends. -/
theorem writeNoSnpFrom_ends {fuel : ℕ} (h : gp.dataLength - pos ≤ fuel) : gp.dataLength ≤ (writeNoSnpFrom gp fuel pos).2 := by
  induction fuel generalizing pos with
  | zero =>
    change gp.dataLength ≤ pos
    omega
  | succ fuel ih =>
    rw [writeNoSnpFrom]
    split_ifs with hlt
    · have hn : (writeNoSnpPiece gp pos).n = min (gp.dataLength - pos) 64 := rfl
      exact ih (by omega)
    · exact Nat.not_lt.1 hlt

theorem writeNoSnpFrom_of_ge {fuel : ℕ} (h : gp.dataLength ≤ pos) : writeNoSnpFrom gp fuel pos = ([], pos) := by
  cases fuel with
  | zero => rfl
  | succ fuel => rw [writeNoSnpFrom, if_neg (Nat.not_lt.2 h)]

theorem writeNoSnpFrom_iff {fuel : ℕ} (hfuel : gp.dataLength - pos ≤ fuel) (hoff : lineOffset gp pos = 0) :
    (∀ p ∈ (writeNoSnpFrom gp fuel pos).1, p.Right) ↔ (allBytesEnabled gp = true → 64 ∣ gp.dataLength - pos) := by
  induction fuel generalizing pos with
  | zero => simp [writeNoSnpFrom, Nat.le_zero.1 hfuel]
  | succ fuel ih =>
    by_cases hlt : pos < gp.dataLength
    · have hn : (writeNoSnpPiece gp pos).n = min (gp.dataLength - pos) 64 := rfl
      rw [writeNoSnpFrom, if_pos hlt]
      simp only [List.forall_mem_cons]
      rw [right_writeNoSnpPiece hlt, FairPiece, hoff, hn]
      by_cases hline : pos + 64 ≤ gp.dataLength
      · have hoff' : lineOffset gp (pos + 64) = 0 := by rw [lineOffset_add, hoff]
        have hdvd : 64 ∣ gp.dataLength - (pos + 64) ↔ 64 ∣ gp.dataLength - pos := by omega
        rw [Nat.min_eq_right (by omega), ih (by omega) hoff', hdvd]
        simp [hline]
      · have hdvd : ¬64 ∣ gp.dataLength - pos := by omega
        rw [writeNoSnpFrom_of_ge (by omega)]
        cases allBytesEnabled gp <;> simp [hline, hdvd]
    · rw [writeNoSnpFrom_of_ge (Nat.not_lt.1 hlt), Nat.sub_eq_zero_of_le (Nat.not_lt.1 hlt)]
      simp

/-- The pieces of `WriteNoSnp` are right exactly if the payload is aligned or in a line, and in whole lines if it is
enabled throughout. -/
theorem writeNoSnp_right_iff : (∀ p ∈ (writeNoSnp gp).1, p.Right) ↔ FairStore gp := by
  rw [writeNoSnp, FairStore]
  by_cases hoff : lineOffset gp 0 = 0
  · rw [writeNoSnpFrom_iff (by omega) hoff, hoff, Nat.sub_zero]
    by_cases hlen : gp.dataLength = 0
    · simp [hlen]
    · cases allBytesEnabled gp <;> simp [hlen]
  · rcases Nat.eq_zero_or_pos gp.dataLength with hlen | hlen
    · rw [hlen]
      simp [writeNoSnpFrom]
    · obtain ⟨m, hm⟩ := Nat.exists_eq_add_one.2 hlen
      have hfirst : ∀ fuel, writeNoSnpFrom gp (fuel + 1) 0 = (writeNoSnpPiece gp 0 :: _, _) := fun fuel => if_pos hlen
      have hpiece := right_writeNoSnpPiece hlen
      rw [FairPiece, Nat.sub_zero] at hpiece
      have hn : (writeNoSnpPiece gp 0).n = min (gp.dataLength - 0) 64 := rfl
      have hzero : gp.dataLength ≠ 0 := by omega
      conv_lhs => rw [hm, hfirst]
      simp only [List.forall_mem_cons]
      rw [hpiece]
      by_cases hfit : lineOffset gp 0 + gp.dataLength ≤ 64
      · rw [writeNoSnpFrom_of_ge (by omega)]
        simp [hoff, hfit, hzero]
      · simp [hoff, hfit, hzero]

end LibSystemCTLM.Chi.NonCached
