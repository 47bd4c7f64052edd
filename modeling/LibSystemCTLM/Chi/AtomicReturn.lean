import LibSystemCTLM.Chi.SlaveAtomics
import LibSystemCTLM.Foundation.Lines

/-!
# What an atomic returns to its requester

The requester of an atomic has one buffer of a line (`AtomicTxn`), in which the operand is put at the
offset of the address, and the original data that comes back too. The data of the line comes in
flits, as wide as the data bus, whose `DataID` says which part of the line they are; the bytes at
the offset of the address are read when as many enabled bytes came as the atomic is about
(`AtomicNonStore`).

A flit with byte enables is put at the beginning of the buffer, whichever part it is
(`copyDataNonCoherent`). So what is read is the operand, unless the bytes are in the first part; and
bytes of the line that are enabled beside those of the atomic are counted as if they were its own.
`returned_iff` says when the original data is returned.
-/

namespace LibSystemCTLM.Chi.Atomics

open Foundation Tlm

/-- `AtomicTxn`. `m_gp` is transmitted with the data once, and then it is `written`. -/
structure AtomicTxn where
  data : ℕ → Byte
  byteEnable : ℕ → Bool
  inboundLen : ℕ
  received : ℕ := 0
  gotDBID : Bool := false
  gotCompData : Bool := false
  written : Bool := false

/-- A `CompData` flit, with the data and the byte enables of its payload. -/
structure CompData where
  dataID : ℕ
  dataLength : ℕ
  byteEnableLength : ℕ
  data : ℕ → Byte
  byteEnable : ℕ → Bool

/-- `n` bytes are copied to a place of a buffer. -/
def copyTo {α : Type} (a : ℕ → α) (i n : ℕ) (b : ℕ → α) : ℕ → α := fun k => if i ≤ k ∧ k < i + n then b (k - i) else a k

namespace AtomicTxn

/-- The constructor, with the data of the attributes. -/
def new (gp : GenericPayload) (opcode : ℕ) (attrData : ℕ → Byte) : AtomicTxn :=
  let n := gp.dataLength
  let offset := offsetOf 6 gp.address
  if opcode = Form.compare.opcode then
    let offsetSwapData := if offset % (n * 2) ≠ 0 then (offset + 2 ^ 32 - n) % 2 ^ 32 else offset + n
    { data := copyTo (copyTo (fun _ => 0) offset n attrData) offsetSwapData n fun k => attrData (n + k)
      byteEnable := copyTo (copyTo (fun _ => false) offset n fun _ => true) offsetSwapData n fun _ => true
      inboundLen := n }
  else
    { data := copyTo (fun _ => 0) offset n attrData
      byteEnable := copyTo (fun _ => false) offset n fun _ => true
      inboundLen := n }

/-- `CopyDataNonCoherent`, and how many bytes were copied. -/
def copyDataNonCoherent (t : AtomicTxn) (f : CompData) : Option (AtomicTxn × ℕ) :=
  let offset := f.dataID * f.dataLength
  let len := min f.dataLength ((64 + 2 ^ 32 - offset) % 2 ^ 32)
  -- The branch without byte enables has nothing to copy.
  if f.dataLength = f.byteEnableLength then
    some ({ t with data := fun i => if i < len ∧ f.byteEnable i = true then f.data i else t.data i }, (List.range len).countP f.byteEnable)
  else none

/-- `HandleRxDat`, and whether the flit was accepted. -/
def handleRxDat (t : AtomicTxn) (f : CompData) : Option (AtomicTxn × Bool) :=
  if t.gotCompData = true then some (t, false)
  else do
    let (t', n) ← t.copyDataNonCoherent f
    some ({ t' with received := t.received + n, gotCompData := decide (t.received + n = t.inboundLen) }, true)

/-- `HandleRxRsp`. -/
def handleRxRsp (t : AtomicTxn) : AtomicTxn := { t with gotDBID := true }

/-- The data is transmitted when there is a `DBID`. -/
def transmit (t : AtomicTxn) : AtomicTxn := { t with written := t.written || t.gotDBID }

def done (t : AtomicTxn) : Bool := t.gotCompData && t.gotDBID && t.written

/-- `ReadLine`, from the beginning of the payload. -/
def readLine (t : AtomicTxn) (gp : GenericPayload) : GenericPayload :=
  let offset := offsetOf 6 gp.address
  let len := min gp.dataLength (64 - offset)
  { gp with data := fun k => if k < len ∧ gp.enabled k = true then t.data (offset + k) else gp.data k }

end AtomicTxn

/-- What gets to the transaction, and its data on the way out. -/
inductive Event where
  | dbidResp
  | transmit
  | compData (f : CompData)

/-- The flit of an event. -/
def Event.flit : Event → Option CompData
  | .compData f => some f
  | _ => none

def AtomicTxn.step (t : AtomicTxn) : Event → Option AtomicTxn
  | .dbidResp => some t.handleRxRsp
  | .transmit => some t.transmit
  | .compData f => (t.handleRxDat f).map (·.1)

/-- `AtomicNonStore`: what is read once the transaction is done. -/
def atomicNonStore (gp : GenericPayload) (opcode : ℕ) (attrData : ℕ → Byte) (es : List Event) : Option GenericPayload := do
  let t ← es.foldlM AtomicTxn.step (AtomicTxn.new gp opcode attrData)
  if t.done = true then some (t.readLine gp) else none

/-! ### What is to be returned -/

/-- The inbound lengths that the protocol allows. -/
def Form.inboundSizes : Form → List ℕ
  | .compare => [1, 2, 4, 8, 16]
  | _ => [1, 2, 4, 8]

/-- An atomic that returns data, at an address that is aligned to its size. -/
structure Request (f : Form) (gp : GenericPayload) (opcode : ℕ) : Prop where
  opcode : opcode = f.opcode
  returns : f.isStore = false
  size : gp.dataLength ∈ f.inboundSizes
  aligned : gp.address.toNat % gp.dataLength = 0

/-- The line has the original data at the address. Other bytes of it may be enabled or not. -/
def Holds (mem : Addr → Byte) (gp : GenericPayload) (d : Dat) : Prop :=
  ∀ k < gp.dataLength, d.data (offsetOf 6 gp.address + k) = mem (gp.address + BitVec.ofNat 64 k) ∧ d.byteEnable (offsetOf 6 gp.address + k) = true

/-- A part of the line, for a data bus of `w` bytes. -/
def part (d : Dat) (w id : ℕ) : CompData := ⟨id, w, w, fun i => d.data (id * w + i), fun i => d.byteEnable (id * w + i)⟩

/-- **The original bytes are returned.** -/
def Returned (mem : Addr → Byte) (gp gp' : GenericPayload) : Prop :=
  ∀ k < gp.dataLength, gp.enabled k = true → gp'.data k = mem (gp.address + BitVec.ofNat 64 k)

/-- How many bytes of a part are enabled. -/
def enabledIn (d : Dat) (w id : ℕ) : ℕ := (List.range w).countP fun i => d.byteEnable (id * w + i)

/-- The part that the bytes of the atomic are in. -/
def own (gp : GenericPayload) (w : ℕ) : ℕ := offsetOf 6 gp.address / w

/-- The byte at a place of the last part that has it enabled. -/
def lastByte (d : Dat) (w : ℕ) (ids : List ℕ) (old : ℕ → Byte) (i : ℕ) : Byte :=
  match ids.reverse.find? fun id => decide (i < w) && d.byteEnable (id * w + i) with
  | some id => d.data (id * w + i)
  | none => old i

/-- No byte but those of the atomic is enabled up to its part, which is the first of the line, or the operand is what there was. -/
def Placed (mem : Addr → Byte) (gp : GenericPayload) (attrData : ℕ → Byte) (d : Dat) (w : ℕ) (ids : List ℕ) : Prop :=
  ∃ pre post, ids = pre ++ own gp w :: post ∧ (∀ id ∈ pre, enabledIn d w id = 0) ∧ enabledIn d w (own gp w) = gp.dataLength ∧
    (own gp w = 0 ∨ ∀ k < gp.dataLength, gp.enabled k = true → attrData k = mem (gp.address + BitVec.ofNat 64 k))

/-- As many bytes are enabled before the part of the atomic as it has, and they happen to be the same. -/
def Mistaken (mem : Addr → Byte) (gp : GenericPayload) (attrData : ℕ → Byte) (d : Dat) (w : ℕ) (ids : List ℕ) : Prop :=
  ∃ pre post, ids = pre ++ post ∧ own gp w ∉ pre ∧ (pre.map (enabledIn d w)).sum = gp.dataLength ∧
    ∀ k < gp.dataLength, gp.enabled k = true →
      lastByte d w pre (fun i => attrData (i - offsetOf 6 gp.address)) (offsetOf 6 gp.address + k) = mem (gp.address + BitVec.ofNat 64 k)

/-! ### The parts that came -/

section Receiving

variable {mem : Addr → Byte} {gp : GenericPayload} {attrData : ℕ → Byte} {d : Dat} {w opcode : ℕ} {ids pre q q' : List ℕ} {es : List Event}
  {t t' : AtomicTxn} {f : Form}

/-- How many enabled bytes came. -/
def came (d : Dat) (w : ℕ) (ids : List ℕ) : ℕ := (ids.map (enabledIn d w)).sum

@[simp] theorem came_nil : came d w [] = 0 := rfl

@[simp] theorem came_append : came d w (q ++ q') = came d w q + came d w q' := by simp [came]

@[simp] theorem came_cons (id : ℕ) : came d w (id :: q) = enabledIn d w id + came d w q := by simp [came]

theorem came_eq_zero : came d w q = 0 ↔ ∀ id ∈ q, enabledIn d w id = 0 := by simp [came, List.sum_eq_zero_iff_forall_eq_nat]

theorem lastByte_append_singleton (id : ℕ) (old : ℕ → Byte) (i : ℕ) :
    lastByte d w (q ++ [id]) old i = if i < w ∧ d.byteEnable (id * w + i) = true then d.data (id * w + i) else lastByte d w q old i := by
  rw [lastByte, List.reverse_append, List.reverse_singleton, List.singleton_append, List.find?_cons]
  by_cases h : i < w ∧ d.byteEnable (id * w + i) = true
  · simp [h]
  · rw [if_neg h]
    have hnot : (decide (i < w) && d.byteEnable (id * w + i)) = false := by
      rw [Bool.eq_false_iff]
      simpa using h
    simp only [hnot]
    rfl

/-- Parts without enabled bytes leave the buffer alone. -/
theorem lastByte_append (h : came d w q' = 0) (old : ℕ → Byte) : lastByte d w (q ++ q') old = lastByte d w q old := by
  induction q' using List.reverseRecOn with
  | nil => rw [List.append_nil]
  | append_singleton q' id ih =>
    rw [came_append, came_cons, came_nil] at h
    funext i
    rw [← List.append_assoc, lastByte_append_singleton, if_neg, ih (by omega)]
    rintro ⟨hi, he⟩
    have hzero : enabledIn d w id = 0 := by omega
    rw [enabledIn, List.countP_eq_zero] at hzero
    exact hzero i (List.mem_range.2 hi) he

/-- Beyond the first part, the buffer has the operand. -/
theorem lastByte_of_le {i : ℕ} (h : w ≤ i) (old : ℕ → Byte) : lastByte d w q old i = old i := by
  have hnone : (q.reverse.find? fun id => decide (i < w) && d.byteEnable (id * w + i)) = none := by
    rw [List.find?_eq_none]
    intro id _
    simp [Nat.not_lt.2 h]
  rw [lastByte, hnone]

/-- Two beginnings with as many enabled bytes leave the same. -/
theorem lastByte_eq (h : q <+: ids) (h' : q' <+: ids) (heq : came d w q = came d w q') (old : ℕ → Byte) :
    lastByte d w q old = lastByte d w q' old := by
  rcases List.prefix_or_prefix_of_prefix h h' with ⟨r, rfl⟩ | ⟨r, rfl⟩
  · rw [came_append] at heq
    rw [lastByte_append (by omega)]
  · rw [came_append] at heq
    rw [lastByte_append (by omega)]

/-- What the buffer has when some parts came: all of them, or those up to which there were enough enabled bytes. -/
inductive Received (d : Dat) (w : ℕ) (t₀ : AtomicTxn) (ids : List ℕ) (t : AtomicTxn) : Prop
  | waiting : t.gotCompData = false → t.inboundLen = t₀.inboundLen → t.received = came d w ids → t.data = lastByte d w ids t₀.data →
      (∀ q, q <+: ids → came d w q ≠ t₀.inboundLen) → Received d w t₀ ids t
  | got (q : List ℕ) : t.gotCompData = true → q <+: ids → came d w q = t₀.inboundLen → t.data = lastByte d w q t₀.data → Received d w t₀ ids t

/-- A part of the line is copied as a whole. -/
theorem copyDataNonCoherent_part {id : ℕ} (hid : id * w + w ≤ 64) : t.copyDataNonCoherent (part d w id) =
    some ({ t with data := fun i => if i < w ∧ d.byteEnable (id * w + i) = true then d.data (id * w + i) else t.data i }, enabledIn d w id) := by
  have hlen : min w ((64 + 2 ^ 32 - id * w) % 2 ^ 32) = w := by omega
  simp only [AtomicTxn.copyDataNonCoherent, part, enabledIn, hlen, if_true]

theorem handleRxDat_part {id : ℕ} (hid : id * w + w ≤ 64) (ht : t.gotCompData = false) :
    ∃ t', t.step (.compData (part d w id)) = some t' ∧ t'.received = t.received + enabledIn d w id ∧ t'.inboundLen = t.inboundLen ∧
      t'.gotCompData = decide (t.received + enabledIn d w id = t.inboundLen) ∧
      t'.data = fun i => if i < w ∧ d.byteEnable (id * w + i) = true then d.data (id * w + i) else t.data i := by
  refine ⟨{ t with data := _, received := _, gotCompData := _ }, ?_, rfl, rfl, rfl, rfl⟩
  simp only [AtomicTxn.step, AtomicTxn.handleRxDat, ht, copyDataNonCoherent_part hid]
  rfl

variable {t₀ : AtomicTxn}

theorem Received.part (h : Received d w t₀ ids t) {id : ℕ} (hid : id * w + w ≤ 64) :
    ∃ t', t.step (.compData (Atomics.part d w id)) = some t' ∧ Received d w t₀ (ids ++ [id]) t' := by
  cases h with
  | waiting hgot hlen hreceived hdata hnot =>
    obtain ⟨t', hstep, hreceived', hlen', hgot', hdata'⟩ := handleRxDat_part (d := d) hid hgot
    have hcame : came d w (ids ++ [id]) = t.received + enabledIn d w id := by rw [came_append, came_cons, came_nil, hreceived, Nat.add_zero]
    have hdata : t'.data = lastByte d w (ids ++ [id]) t₀.data := by
      rw [hdata', hdata]
      exact funext fun i => (lastByte_append_singleton id t₀.data i).symm
    refine ⟨t', hstep, ?_⟩
    by_cases hall : t.received + enabledIn d w id = t.inboundLen
    · exact .got _ (by rw [hgot', decide_eq_true hall]) (List.prefix_refl _) (by rw [hcame, hall, hlen]) hdata
    · refine .waiting (by rw [hgot', decide_eq_false hall]) (hlen'.trans hlen) (hreceived'.trans hcame.symm) hdata fun q hq => ?_
      rcases List.prefix_concat_iff.1 hq with rfl | hq
      · rw [hcame, ← hlen]
        exact hall
      · exact hnot q hq
  | got q hgot hq hcame hdata =>
    refine ⟨t, by simp only [AtomicTxn.step, AtomicTxn.handleRxDat, hgot]; rfl, .got q hgot (hq.trans (List.prefix_append _ _)) hcame hdata⟩

/-- What gets to the transaction beside the flits does not touch the buffer. -/
theorem Received.other (h : Received d w t₀ ids t) {e : Event} (he : e.flit = none) : ∃ t', t.step e = some t' ∧ Received d w t₀ ids t' := by
  cases e with
  | dbidResp =>
    refine ⟨_, rfl, ?_⟩
    cases h with
    | waiting hgot hlen hreceived hdata hnot => exact .waiting hgot hlen hreceived hdata hnot
    | got q hgot hq hcame hdata => exact .got q hgot hq hcame hdata
  | transmit =>
    refine ⟨_, rfl, ?_⟩
    cases h with
    | waiting hgot hlen hreceived hdata hnot => exact .waiting hgot hlen hreceived hdata hnot
    | got q hgot hq hcame hdata => exact .got q hgot hq hcame hdata
  | compData f => cases he

/-- All parts of a response, whatever gets to the transaction in between. -/
theorem received_of_run (h₀ : Received d w t₀ [] t₀) (hids : ∀ id ∈ ids, id * w + w ≤ 64)
    (hes : es.filterMap Event.flit = ids.map (part d w)) : ∃ t, es.foldlM AtomicTxn.step t₀ = some t ∧ Received d w t₀ ids t := by
  induction es using List.reverseRecOn generalizing ids with
  | nil =>
    obtain rfl : ids = [] := by simpa using hes.symm
    exact ⟨t₀, rfl, h₀⟩
  | append_singleton es e ih =>
    rw [List.filterMap_append] at hes
    cases he : e.flit with
    | none =>
      obtain ⟨t, ht, hrec⟩ := ih hids (by simpa [he] using hes)
      obtain ⟨t', ht', hrec'⟩ := hrec.other he
      exact ⟨t', by rw [List.foldlM_append, ht]; simpa using ht', hrec'⟩
    | some f =>
      have hes' : es.filterMap Event.flit ++ [f] = ids.map (part d w) := by simpa [he] using hes
      obtain ⟨ids', last, rfl, hids', hlast⟩ := List.map_eq_append_iff.1 hes'.symm
      obtain ⟨id, rfl, rfl⟩ := List.map_eq_singleton_iff.1 hlast
      obtain ⟨t, ht, hrec⟩ := ih (fun i hi => hids i (List.mem_append_left _ hi)) hids'.symm
      obtain ⟨t', ht', hrec'⟩ := hrec.part (hids id (by simp))
      cases e with
      | compData f =>
        obtain rfl := Option.some.inj he
        exact ⟨t', by rw [List.foldlM_append, ht]; simpa using ht', hrec'⟩
      | dbidResp => cases he
      | transmit => cases he

/-! ### The other responses -/

theorem flags_of_step {e : Event} (h : t.step e = some t') : (t.gotDBID = true ∨ e = .dbidResp → t'.gotDBID = true) ∧
    (t.written = true ∨ t.gotDBID = true ∧ e = .transmit → t'.written = true) := by
  cases e with
  | dbidResp =>
    obtain rfl := Option.some.inj h
    exact ⟨fun _ => rfl, fun hw => hw.elim id fun hw => nomatch hw.2⟩
  | transmit =>
    obtain rfl := Option.some.inj h
    refine ⟨fun hg => hg.elim id nofun, fun hw => ?_⟩
    rcases hw with hw | ⟨hg, -⟩
    · simp [AtomicTxn.transmit, hw]
    · simp [AtomicTxn.transmit, hg]
  | compData f =>
    suffices hsame : t'.gotDBID = t.gotDBID ∧ t'.written = t.written by
      rw [hsame.1, hsame.2]
      exact ⟨fun hg => hg.elim id nofun, fun hw => hw.elim id fun hw => nomatch hw.2⟩
    simp only [AtomicTxn.step, AtomicTxn.handleRxDat, AtomicTxn.copyDataNonCoherent] at h
    split_ifs at h with hgot hlen
    · obtain rfl := Option.some.inj h
      exact ⟨rfl, rfl⟩
    · obtain rfl := Option.some.inj h
      exact ⟨rfl, rfl⟩
    · cases h

/-- What is responded and transmitted stays so. -/
theorem flags_of_run (h : es.foldlM AtomicTxn.step t = some t') :
    (t.gotDBID = true → t'.gotDBID = true) ∧ (t.written = true → t'.written = true) := by
  induction es generalizing t with
  | nil =>
    obtain rfl := Option.some.inj h
    exact ⟨id, id⟩
  | cons e es ih =>
    obtain ⟨u, hu, hrest⟩ := Option.bind_eq_some_iff.1 h
    have hflags := flags_of_step hu
    exact ⟨fun hg => (ih hrest).1 (hflags.1 (.inl hg)), fun hw => (ih hrest).2 (hflags.2 (.inl hw))⟩

/-- Data that is transmitted behind the `DBIDResp` is written. -/
theorem written_of_run {a b c : List Event} (h : (a ++ .dbidResp :: (b ++ .transmit :: c)).foldlM AtomicTxn.step t = some t') :
    t'.gotDBID = true ∧ t'.written = true := by
  rw [List.foldlM_append] at h
  obtain ⟨t₁, -, h⟩ := Option.bind_eq_some_iff.1 h
  rw [List.foldlM_cons] at h
  obtain ⟨t₂, h₂, h⟩ := Option.bind_eq_some_iff.1 h
  rw [List.foldlM_append] at h
  obtain ⟨t₃, h₃, h⟩ := Option.bind_eq_some_iff.1 h
  rw [List.foldlM_cons] at h
  obtain ⟨t₄, h₄, h⟩ := Option.bind_eq_some_iff.1 h
  have hdbid₂ := (flags_of_step h₂).1 (.inr rfl)
  have hdbid₃ := (flags_of_run h₃).1 hdbid₂
  have hflags₄ := flags_of_step h₄
  exact ⟨(flags_of_run h).1 (hflags₄.1 (.inl hdbid₃)), (flags_of_run h).2 (hflags₄.2 (.inr ⟨hdbid₃, rfl⟩))⟩

/-! ### The request -/

/-- The bytes of an atomic are in its line, and in one part of it. -/
theorem Request.fits (h : Request f gp opcode) (hw : w ∈ [16, 32, 64]) : 0 < gp.dataLength ∧ offsetOf 6 gp.address + gp.dataLength ≤ 64 ∧
    offsetOf 6 gp.address % gp.dataLength = 0 ∧ own gp w * w ≤ offsetOf 6 gp.address ∧ offsetOf 6 gp.address + gp.dataLength ≤ own gp w * w + w := by
  have hoff : offsetOf 6 gp.address = gp.address.toNat % 64 := offsetOf_eq (by decide) _
  have hsize : gp.dataLength ∈ [1, 2, 4, 8, 16] := by
    have h := h.size
    cases f with
    | compare => exact h
    | store op => exact List.mem_append_left [16] h
    | load op => exact List.mem_append_left [16] h
    | swap => exact List.mem_append_left [16] h
  have haligned := h.aligned
  rw [own, hoff]
  simp only [List.mem_cons, List.not_mem_nil, or_false] at hw hsize
  rcases hw with rfl | rfl | rfl
  all_goals
    rcases hsize with hn | hn | hn | hn | hn
    all_goals
      rw [hn] at haligned ⊢
      omega

/-- The operand is put at the offset of the address. -/
theorem Request.operand (h : Request f gp opcode) {k : ℕ} (hk : k < gp.dataLength) :
    (AtomicTxn.new gp opcode attrData).data (offsetOf 6 gp.address + k) = attrData k := by
  obtain ⟨hpos, hfit, hmod, -, -⟩ := h.fits (w := 64) (by decide)
  simp only [AtomicTxn.new]
  split_ifs with hcompare hhalf
  · have hle : gp.dataLength ≤ offsetOf 6 gp.address := by
      by_contra hlt
      rw [Nat.mod_eq_of_lt (Nat.not_le.1 hlt)] at hmod
      rw [hmod, Nat.zero_mod] at hhalf
      exact hhalf rfl
    have hidx : (offsetOf 6 gp.address + 2 ^ 32 - gp.dataLength) % 2 ^ 32 = offsetOf 6 gp.address - gp.dataLength := by omega
    rw [hidx]
    simp only [copyTo]
    rw [if_neg (by omega), if_pos (by omega), Nat.add_sub_cancel_left]
  · simp only [copyTo]
    rw [if_neg (by omega), if_pos (by omega), Nat.add_sub_cancel_left]
  · simp only [copyTo]
    rw [if_pos (by omega), Nat.add_sub_cancel_left]

theorem new_spec (gp : GenericPayload) (opcode : ℕ) (attrData : ℕ → Byte) : (AtomicTxn.new gp opcode attrData).inboundLen = gp.dataLength ∧
    (AtomicTxn.new gp opcode attrData).received = 0 ∧ (AtomicTxn.new gp opcode attrData).gotCompData = false := by
  unfold AtomicTxn.new
  by_cases hcompare : opcode = Form.compare.opcode
  · simp only [if_pos hcompare, and_self]
  · simp only [if_neg hcompare, and_self]

theorem received_new (h : 0 < gp.dataLength) : Received d w (AtomicTxn.new gp opcode attrData) [] (AtomicTxn.new gp opcode attrData) := by
  obtain ⟨hlen, hreceived, hgot⟩ := new_spec gp opcode attrData
  refine .waiting hgot rfl hreceived rfl fun q hq => ?_
  rw [List.prefix_nil.1 hq, hlen]
  exact h.ne

/-! ### What is read -/

/-- A byte of the buffer depends on the operand at its place alone. -/
theorem lastByte_congr {old old' : ℕ → Byte} {i : ℕ} (h : old i = old' i) : lastByte d w q old i = lastByte d w q old' i := by
  rw [lastByte, lastByte]
  split
  · rfl
  · exact h

theorem le_countP_range {p : ℕ → Bool} {a n : ℕ} (h : a + n ≤ w) (hp : ∀ k < n, p (a + k) = true) : n ≤ (List.range w).countP p := by
  obtain ⟨r, rfl⟩ := Nat.exists_eq_add_of_le h
  have hall : (List.range n).countP (p ∘ fun k => a + k) = n := by
    exact (List.countP_eq_length.2 fun k hk => hp k (List.mem_range.1 hk)).trans List.length_range
  rw [List.range_add, List.range_add, List.countP_append, List.countP_append, List.countP_map, hall]
  omega

/-- The bytes of the atomic are enabled in their part. -/
theorem le_enabledIn_own (hreq : Request f gp opcode) (hw : w ∈ [16, 32, 64]) (hd : Holds mem gp d) : gp.dataLength ≤ enabledIn d w (own gp w) := by
  obtain ⟨-, -, -, hbegin, hend⟩ := hreq.fits hw
  refine le_countP_range (a := offsetOf 6 gp.address - own gp w * w) (by omega) fun k hk => ?_
  rw [show own gp w * w + (offsetOf 6 gp.address - own gp w * w + k) = offsetOf 6 gp.address + k by omega]
  exact (hd k hk).2

/-- Some parts bring as many enabled bytes as the atomic has, and leave the original bytes at the offset of the address. -/
theorem reads_iff (hreq : Request f gp opcode) (hw : w ∈ [16, 32, 64]) (hd : Holds mem gp d) :
    (∃ q, q <+: ids ∧ came d w q = gp.dataLength ∧ ∀ k < gp.dataLength, gp.enabled k = true →
      lastByte d w q (AtomicTxn.new gp opcode attrData).data (offsetOf 6 gp.address + k) = mem (gp.address + BitVec.ofNat 64 k)) ↔
    Placed mem gp attrData d w ids ∨ Mistaken mem gp attrData d w ids := by
  obtain ⟨hpos, -, -, hbegin, hend⟩ := hreq.fits hw
  have hbehind : own gp w ≠ 0 → ∀ k, w ≤ offsetOf 6 gp.address + k := by
    intro hne k
    have hle := Nat.le_mul_of_pos_left w (Nat.pos_of_ne_zero hne)
    omega
  have hold : ∀ k < gp.dataLength, (AtomicTxn.new gp opcode attrData).data (offsetOf 6 gp.address + k) =
      (fun i => attrData (i - offsetOf 6 gp.address)) (offsetOf 6 gp.address + k) := by
    intro k hk
    simp only [Nat.add_sub_cancel_left]
    exact hreq.operand hk
  constructor
  · rintro ⟨q, ⟨r, rfl⟩, hcame, hread⟩
    by_cases hown : own gp w ∈ q
    · obtain ⟨pre, post, rfl⟩ := List.append_of_mem hown
      have hmany := le_enabledIn_own hreq hw hd
      rw [came_append, came_cons] at hcame
      refine .inl ⟨pre, post ++ r, by simp, came_eq_zero.1 (by omega), by omega, ?_⟩
      by_cases hfirst : own gp w = 0
      · exact .inl hfirst
      · refine .inr fun k hk he => ?_
        rw [← hread k hk he, lastByte_of_le (hbehind hfirst k), hreq.operand hk]
    · exact .inr ⟨q, r, rfl, hown, hcame, fun k hk he => (lastByte_congr (hold k hk)).symm.trans (hread k hk he)⟩
  · rintro (⟨pre, post, rfl, hpre, hall, hplace⟩ | ⟨pre, post, rfl, -, hcame, hread⟩)
    · refine ⟨pre ++ [own gp w], by simp, ?_, fun k hk he => ?_⟩
      · rw [came_append, came_cons, came_nil, came_eq_zero.2 hpre, hall]
        omega
      · rw [lastByte_append_singleton]
        rcases hplace with hfirst | hsame
        · rw [hfirst, Nat.zero_mul] at hend ⊢
          rw [Nat.zero_add, if_pos ⟨by omega, (hd k hk).2⟩, (hd k hk).1]
        · by_cases hfirst : own gp w = 0
          · rw [hfirst, Nat.zero_mul] at hend ⊢
            rw [Nat.zero_add, if_pos ⟨by omega, (hd k hk).2⟩, (hd k hk).1]
          · have hle := hbehind hfirst k
            rw [if_neg (by omega), lastByte_of_le hle, hreq.operand hk, hsame k hk he]
    · exact ⟨pre, List.prefix_append _ _, hcame, fun k hk he => (lastByte_congr (hold k hk)).trans (hread k hk he)⟩

/-- **The original data is returned exactly if** the part of the line that has the bytes of the atomic is the first and
comes before any other enabled byte, or what is in the buffer in its place happens to be the same. -/
theorem returned_iff (hreq : Request f gp opcode) (hw : w ∈ [16, 32, 64]) (hids : ∀ id ∈ ids, id * w + w ≤ 64) (hd : Holds mem gp d)
    (hes : es.filterMap Event.flit = ids.map (part d w)) (hwritten : ∃ a b c, es = a ++ .dbidResp :: (b ++ .transmit :: c)) :
    (∃ gp', atomicNonStore gp opcode attrData es = some gp' ∧ Returned mem gp gp') ↔
      Placed mem gp attrData d w ids ∨ Mistaken mem gp attrData d w ids := by
  obtain ⟨hpos, hfit, -, -, -⟩ := hreq.fits hw
  obtain ⟨hlen, -, -⟩ := new_spec gp opcode attrData
  have h₀ : Received d w (AtomicTxn.new gp opcode attrData) [] _ := received_new hpos
  obtain ⟨t, hrun, hrec⟩ := received_of_run h₀ hids hes
  have hflags : t.gotDBID = true ∧ t.written = true := by
    obtain ⟨a, b, c, rfl⟩ := hwritten
    exact written_of_run hrun
  have hnonStore : atomicNonStore gp opcode attrData es = if t.gotCompData = true then some (t.readLine gp) else none := by
    simp [atomicNonStore, hrun, AtomicTxn.done, hflags.1, hflags.2]
  rw [← reads_iff hreq hw hd, hnonStore]
  cases hrec with
  | waiting hgot _ _ _ hnot =>
    rw [hgot]
    constructor
    · rintro ⟨gp', h, -⟩
      cases h
    · rintro ⟨q, hq, hcame, -⟩
      exact absurd (hcame.trans hlen.symm) (hnot q hq)
  | got q hgot hq hcame hdata =>
    rw [if_pos hgot]
    have hread : ∀ k < gp.dataLength, gp.enabled k = true →
        (t.readLine gp).data k = lastByte d w q (AtomicTxn.new gp opcode attrData).data (offsetOf 6 gp.address + k) := by
      intro k hk he
      rw [← hdata, AtomicTxn.readLine]
      simp only
      rw [if_pos ⟨by omega, he⟩]
    constructor
    · rintro ⟨gp', h, hret⟩
      obtain rfl := Option.some.inj h
      exact ⟨q, hq, hcame.trans hlen, fun k hk he => (hread k hk he).symm.trans (hret k hk he)⟩
    · rintro ⟨q', hq', hcame', hret⟩
      refine ⟨_, rfl, fun k hk he => (hread k hk he).trans ?_⟩
      rw [lastByte_eq hq hq' (hcame.trans (hlen.trans hcame'.symm))]
      exact hret k hk he

/-- One byte, in one flit of the whole line. -/
theorem returned_one_flit : ∃ gp', atomicNonStore { address := 0x1010, dataLength := 1 } (Form.load .add).opcode (fun _ => 1)
    [.dbidResp, .transmit, .compData (part ⟨fun _ => 5, fun k => decide (k = 16)⟩ 64 0)] = some gp' ∧
      Returned (fun _ => 5) { address := 0x1010, dataLength := 1 } gp' := by
  have hreq : Request (.load .add) { address := 0x1010, dataLength := 1 } (Form.load .add).opcode := ⟨rfl, rfl, by decide, by decide⟩
  have hd : Holds (fun _ => 5) { address := 0x1010, dataLength := 1 } ⟨fun _ => 5, fun k => decide (k = 16)⟩ := by
    intro k hk
    obtain rfl : k = 0 := by simpa using hk
    decide
  have hids : ∀ id ∈ [0], id * 64 + 64 ≤ 64 := by decide
  exact (returned_iff hreq (by decide) hids hd rfl ⟨[], [], [_], rfl⟩).2 (.inl ⟨[], [], rfl, nofun, by decide, .inl (by decide)⟩)

/-- On a data bus of 128 bits the byte is in the second flit, and the operand is read instead. -/
theorem not_returned_four_flits : ¬∃ gp', atomicNonStore { address := 0x1010, dataLength := 1 } (Form.load .add).opcode (fun _ => 1)
    (.dbidResp :: .transmit :: [0, 1, 2, 3].map fun id => .compData (part ⟨fun _ => 5, fun k => decide (k = 16)⟩ 16 id)) = some gp' ∧
      Returned (fun _ => 5) { address := 0x1010, dataLength := 1 } gp' := by
  rintro ⟨gp', h, hret⟩
  obtain rfl := Option.some.inj h
  exact absurd (hret 0 (by decide) (by decide)) (by decide)

/-! ### The slave node's data -/

/-- Of what the slave node returns, only the bytes of the atomic are enabled. -/
theorem enabledIn_of_original {req : ReqTxn} (hreq : Request f gp opcode) (hw : w ∈ [16, 32, 64]) (haddr : req.address = gp.address)
    (hd : Original mem req gp.dataLength d) (id : ℕ) : enabledIn d w id = if id = own gp w then gp.dataLength else 0 := by
  obtain ⟨hpos, -, -, hbegin, hend⟩ := hreq.fits hw
  have hoff : req.getLineOffset = offsetOf 6 gp.address := by rw [ReqTxn.getLineOffset, haddr]; rfl
  have hbe : ∀ k, d.byteEnable k = true ↔ offsetOf 6 gp.address ≤ k ∧ k < offsetOf 6 gp.address + gp.dataLength := by
    rw [← hoff]
    exact hd.byteEnable
  split_ifs with hid
  · obtain ⟨a, ha⟩ := Nat.exists_eq_add_of_le hbegin
    obtain ⟨r, hr⟩ := Nat.exists_eq_add_of_le hend
    have hw' : w = a + gp.dataLength + r := by omega
    have hat : ∀ i, d.byteEnable (id * w + i) = true ↔ a ≤ i ∧ i < a + gp.dataLength := by
      intro i
      rw [hbe, hid]
      omega
    have hsum : List.range w = List.range a ++ (List.range gp.dataLength).map (a + ·) ++ (List.range r).map (a + gp.dataLength + ·) := by
      rw [hw', List.range_add, List.range_add]
    have hbefore : (List.range a).countP (fun i => d.byteEnable (id * w + i)) = 0 :=
      List.countP_eq_zero.2 fun i hi he => absurd ((hat i).1 he).1 (Nat.not_le.2 (List.mem_range.1 hi))
    have hin : (List.range gp.dataLength).countP ((fun i => d.byteEnable (id * w + i)) ∘ fun k => a + k) = gp.dataLength :=
      (List.countP_eq_length.2 fun k hk => (hat (a + k)).2 ⟨Nat.le_add_right a k, Nat.add_lt_add_left (List.mem_range.1 hk) a⟩).trans List.length_range
    have hbehind : (List.range r).countP ((fun i => d.byteEnable (id * w + i)) ∘ fun k => a + gp.dataLength + k) = 0 :=
      List.countP_eq_zero.2 fun k _ he => absurd ((hat (a + gp.dataLength + k)).1 he).2 (by omega)
    rw [enabledIn, hsum, List.countP_append, List.countP_append, List.countP_map, List.countP_map, hbefore, hin, hbehind, Nat.zero_add, Nat.add_zero]
  · refine List.countP_eq_zero.2 fun i hi he => hid ?_
    have hi := List.mem_range.1 hi
    obtain ⟨hle, hlt⟩ := (hbe _).1 he
    rcases Nat.lt_trichotomy id (own gp w) with h | h | h
    · have hmul := Nat.mul_le_mul_right w (Nat.succ_le_of_lt h)
      rw [Nat.succ_mul] at hmul
      omega
    · exact h
    · have hmul := Nat.mul_le_mul_right w (Nat.succ_le_of_lt h)
      rw [Nat.succ_mul] at hmul
      omega

/-- What the slave node returns, sent part by part, gets back exactly if it is in the first part of the line, or the
operand is what there was. -/
theorem slave_returned_iff {req : ReqTxn} (hreq : Request f gp opcode) (hw : w ∈ [16, 32, 64]) (haddr : req.address = gp.address)
    (hd : Original mem req gp.dataLength d) (hes : es.filterMap Event.flit = (List.range (64 / w)).map (part d w))
    (hwritten : ∃ a b c, es = a ++ .dbidResp :: (b ++ .transmit :: c)) :
    (∃ gp', atomicNonStore gp opcode attrData es = some gp' ∧ Returned mem gp gp') ↔
      own gp w = 0 ∨ ∀ k < gp.dataLength, gp.enabled k = true → attrData k = mem (gp.address + BitVec.ofNat 64 k) := by
  obtain ⟨hpos, hfit, -, hbegin, hend⟩ := hreq.fits hw
  have hoff : req.getLineOffset = offsetOf 6 gp.address := by rw [ReqTxn.getLineOffset, haddr]; rfl
  have henabled := enabledIn_of_original hreq hw haddr hd
  have hholds : Holds mem gp d := by
    intro k hk
    rw [← hoff, ← haddr]
    exact ⟨hd.data k hk, (hd.byteEnable _).2 ⟨Nat.le_add_right _ _, Nat.add_lt_add_left hk _⟩⟩
  have hids : ∀ id ∈ List.range (64 / w), id * w + w ≤ 64 := by
    intro id hid
    have hmul := Nat.mul_le_mul_right w (Nat.succ_le_of_lt (List.mem_range.1 hid))
    rw [Nat.succ_mul] at hmul
    exact hmul.trans (Nat.div_mul_le_self 64 w)
  rw [returned_iff hreq hw hids hholds hes hwritten]
  constructor
  · rintro (⟨pre, post, -, -, -, hplace⟩ | ⟨pre, post, -, hown, hcame, -⟩)
    · exact hplace
    · have hzero : came d w pre = 0 := came_eq_zero.2 fun id hid => by
        rw [henabled, if_neg]
        rintro rfl
        exact hown hid
      exact absurd (hzero.symm.trans hcame) hpos.ne
  · intro hplace
    have hlt : own gp w < 64 / w := by
      rw [own]
      simp only [List.mem_cons, List.not_mem_nil, or_false] at hw
      rcases hw with rfl | rfl | rfl
      all_goals omega
    obtain ⟨r, hr⟩ := Nat.exists_eq_add_of_lt hlt
    refine .inl ⟨List.range (own gp w), (List.range r).map (own gp w + 1 + ·), ?_, fun id hid => ?_, ?_, hplace⟩
    · rw [hr, show own gp w + r + 1 = own gp w + 1 + r by omega, List.range_add, List.range_succ, List.append_assoc, List.singleton_append]
    · rw [henabled, if_neg (List.mem_range.1 hid).ne]
    · rw [henabled, if_pos rfl]

end Receiving

end LibSystemCTLM.Chi.Atomics
