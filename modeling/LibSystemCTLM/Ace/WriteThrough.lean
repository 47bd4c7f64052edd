import LibSystemCTLM.Ace.Memory

/-!
# The write-through cache

`ACECacheWriteThrough` (`cache-ace.h`): a store goes downstream line by line, as a `WriteLineUnique`
for a whole line without sparse strobes and as a `WriteUnique` otherwise, and a line that is in the
cache gets the bytes too; a load reads lines, and fetches the ones that are missing with `ReadClean`.

## The model

The downstream transactions succeed, and what is behind them is one memory. A line of this cache is
never dirty (`WriteThrough`), so an eviction changes nothing downstream. `pos` is a position in the
whole payload, as in the source.

## Results

The loop of `write_unique` compares the position in the whole payload with the length of one piece,
so a line behind the first is left as it is when its piece is not longer than its position
(`not_agrees`). `agrees_iff` says when the lines a store touches agree with the memory afterwards.
-/

namespace LibSystemCTLM.Ace

open Foundation Cache

namespace Cache

variable (ls : LineSize)

/-! ### Stores -/

/-- The memory after `do_tlm` of `len` bytes of the payload from `pos` on. -/
def doTlm (mem : Addr → Byte) (gp : Payload) (pos len : ℕ) : Addr → Byte :=
  Write.apply ⟨gp.addrAt pos, len, fun i => gp.enabled (pos + i), fun i => gp.data (pos + i)⟩ mem

/-- `in_cache`, `write_line` and `shared = true`: what a store that went downstream does to the line. -/
def updateLine (c : Cache) (gp : Payload) (pos : ℕ) : Cache :=
  if c.inCache ls (gp.addrAt pos) gp.getSecure then
    let c' := c.writeLine ls gp pos false
    c'.setLine ls (gp.addrAt pos) { c'.getLine ls (gp.addrAt pos) with shared := true }
  else c

/-- `write_line_unique`. -/
def writeLineUnique (c : Cache) (mem : Addr → Byte) (gp : Payload) (pos : ℕ) : Cache × (Addr → Byte) :=
  (c.updateLine ls gp pos, doTlm mem gp pos ls.size)

/-- The loop of `write_unique`. -/
def writeUniqueLoop (gp : Payload) (len : ℕ) : ℕ → Cache → ℕ → Cache
  | 0, c, _ => c
  | fuel + 1, c, pos =>
    if pos < len then
      let maxLen := ls.size - ls.getLineOffset (gp.addrAt pos)
      let n := if maxLen < len then maxLen else len
      writeUniqueLoop gp len fuel (c.updateLine ls gp pos) (pos + n)
    else c

/-- `write_unique`. -/
def writeUnique (c : Cache) (mem : Addr → Byte) (gp : Payload) (pos len : ℕ) : Cache × (Addr → Byte) :=
  (writeUniqueLoop ls gp len len c pos, doTlm mem gp pos len)

/-- `no_sparse_wstrb`. -/
def noSparseWstrb (gp : Payload) (pos : ℕ) : Bool := (List.range ls.size).all fun i => gp.enabled (pos + i)

/-- The loop of `handle_store`. -/
def storeLoopThrough (gp : Payload) : ℕ → Cache → (Addr → Byte) → ℕ → Cache × (Addr → Byte)
  | 0, c, mem, _ => (c, mem)
  | fuel + 1, c, mem, pos =>
    if pos < gp.dataLength then
      let n := toWrite ls gp pos
      let r :=
        if n = ls.size ∧ noSparseWstrb ls gp pos = true then writeLineUnique ls c mem gp pos
        else writeUnique ls c mem gp pos n
      storeLoopThrough gp fuel r.1 r.2 (pos + n)
    else (c, mem)

/-- `handle_store`. -/
def handleStore (c : Cache) (mem : Addr → Byte) (gp : Payload) : Cache × (Addr → Byte) :=
  storeLoopThrough ls gp gp.dataLength c mem 0

/-! ### Loads -/

/-- `evict_line`. -/
def evictLine (c : Cache) (mem : Addr → Byte) (addr : Addr) : Cache × (Addr → Byte) :=
  let l := c.getLine ls addr
  if l.dirty then
    let c' := c.getToggle
    let written := writeAt mem l.tag ls.size l.data
    (if c'.toggle then (c'.setLine ls addr { l with dirty := false }).evict ls addr
      else c'.setLine ls addr { l with valid := false }, written)
  else (c.evict ls addr, mem)

/-- `read_clean`. -/
def readClean (c : Cache) (mem : Addr → Byte) (gp : Payload) (addr : Addr) : Cache × (Addr → Byte) :=
  let r := if (c.getLine ls addr).valid then c.evictLine ls mem addr else (c, mem)
  (r.1.setLine ls addr {
    valid := true, tag := ls.getTag addr, shared := false, dirty := false
    data := readFrom r.2 (ls.getTag addr), secure := gp.getSecure }, r.2)

/-- The loop of the write-through `handle_load`. -/
def loadLoopThrough : ℕ → Cache → (Addr → Byte) → Payload → ℕ → Cache × (Addr → Byte) × Payload
  | 0, c, mem, gp, _ => (c, mem, gp)
  | fuel + 1, c, mem, gp, pos =>
    if pos < gp.dataLength then
      if c.inCache ls (gp.addrAt pos) gp.getSecure then
        loadLoopThrough fuel c mem (c.readLine ls gp pos) (pos + toWrite ls gp pos)
      else
        let r := c.readClean ls mem gp (gp.addrAt pos)
        loadLoopThrough fuel r.1 r.2 gp pos
    else (c, mem, gp)

/-- `handle_load`. A byte takes an iteration to read and at most one to fetch its line. -/
def handleLoad (c : Cache) (mem : Addr → Byte) (gp : Payload) : Payload :=
  let r := loadLoopThrough ls (2 * gp.dataLength) c mem gp 0
  { r.2.2.clearExokay with response := .ok }

end Cache

/-- A write-through cache: no line is dirty. -/
structure WriteThrough where
  cache : Cache
  clean : ∀ i, (cache.lines i).dirty = false

/-! ### What a store should do, and when it does -/

section Spec

variable (ls : LineSize) (c : Cache) (mem : Addr → Byte) (gp : Payload)

/-- The byte the cache has for an address of a line that is in it. -/
def byteAt (x : Addr) : Byte := (c.getLine ls x).data (ls.getLineOffset x)

/-- The position of an address in the payload. -/
def Payload.posOf (x : Addr) : ℕ := (x - gp.address).toNat

/-- The store puts a byte at `x`. -/
def Payload.Stores (x : Addr) : Prop := gp.posOf x < gp.dataLength ∧ gp.enabled (gp.posOf x) = true

instance (x : Addr) : Decidable (gp.Stores x) := inferInstanceAs (Decidable (_ ∧ _))

/-- `x` is in a line that the payload touches. -/
def Payload.TouchesLine (x : Addr) : Prop := ∃ p < gp.dataLength, ls.getTag x = ls.getTag (gp.addrAt p)

/-- Where the piece of the store that byte `d` belongs to starts: at the line, or at the payload. -/
def pieceStart (d : ℕ) : ℕ := d - ls.getLineOffset (gp.addrAt d)

/-- The piece of byte `d` is copied to its line: it is a whole line without sparse strobes, or it is
longer than its position in the payload. -/
def Copied (d : ℕ) : Prop :=
  let pos := pieceStart ls gp d
  (toWrite ls gp pos = ls.size ∧ noSparseWstrb ls gp pos = true) ∨ pos < toWrite ls gp pos

instance (d : ℕ) : Decidable (Copied ls gp d) := inferInstanceAs (Decidable (_ ∨ _))

/-- The touched lines agree with the memory, and a load returns every stored byte. -/
structure StoreVisible : Prop where
  agrees : ∀ x, gp.TouchesLine ls x → (handleStore ls c mem gp).1.inCache ls x gp.getSecure = true →
    byteAt ls (handleStore ls c mem gp).1 x = (handleStore ls c mem gp).2 x
  loads : ∀ g : Payload, g.getSecure = gp.getSecure → ∀ q < g.dataLength, g.enabled q = true → gp.Stores (g.addrAt q) →
    (handleLoad ls (handleStore ls c mem gp).1 (handleStore ls c mem gp).2 g).data q = gp.data (gp.posOf (g.addrAt q))

/-- In the touched lines that are cached, what is not stored agreed with the memory before, and what
is stored is copied or was there already. -/
def StoreOk : Prop :=
  ∀ x, gp.TouchesLine ls x → c.inCache ls x gp.getSecure = true →
    if gp.Stores x then Copied ls gp (gp.posOf x) ∨ byteAt ls c x = gp.data (gp.posOf x) else byteAt ls c x = mem x

end Spec

/-! ### One piece of a store -/

section Piece

variable {ls : LineSize} {c : Cache} {mem : Addr → Byte} {gp : Payload} {pos n : ℕ} {x : Addr}

theorem sub_addrAt (x : Addr) (gp : Payload) (pos : ℕ) : x - gp.addrAt pos = x - gp.address - BitVec.ofNat 64 pos := by
  rw [Payload.addrAt]
  bv_omega

/-- A run of the payload, by the position of an address. -/
theorem toNat_sub_addrAt_lt (hn : pos + n ≤ 2 ^ 64) :
    (x - gp.addrAt pos).toNat < n ↔ pos ≤ gp.posOf x ∧ gp.posOf x < pos + n := by
  have hlt := (x - gp.address).isLt
  rw [sub_addrAt, Payload.posOf, BitVec.toNat_sub, BitVec.toNat_ofNat]
  omega

theorem toNat_sub_addrAt (hpos : pos ≤ gp.posOf x) : (x - gp.addrAt pos).toNat = gp.posOf x - pos := by
  rw [Payload.posOf] at hpos ⊢
  rw [sub_addrAt, BitVec.toNat_sub, BitVec.toNat_ofNat]
  omega

theorem addrAt_posOf (gp : Payload) (x : Addr) : gp.addrAt (gp.posOf x) = x := by
  rw [Payload.addrAt, Payload.posOf, BitVec.ofNat_toNat, BitVec.setWidth_eq, BitVec.add_comm, BitVec.sub_add_cancel]

/-- The memory after a piece went downstream. -/
theorem doTlm_apply (hn : pos + n ≤ 2 ^ 64) :
    doTlm mem gp pos n x =
      if (pos ≤ gp.posOf x ∧ gp.posOf x < pos + n) ∧ gp.enabled (gp.posOf x) = true then gp.data (gp.posOf x) else mem x := by
  simp only [doTlm, Write.apply, Write.Hits]
  by_cases hin : pos ≤ gp.posOf x ∧ gp.posOf x < pos + n
  · have hd : pos + (x - gp.addrAt pos).toNat = gp.posOf x := by
      rw [toNat_sub_addrAt hin.1]
      omega
    simp only [toNat_sub_addrAt_lt hn, hin, hd, true_and]
  · simp only [toNat_sub_addrAt_lt hn, hin, false_and, if_false]

/-- A piece that stays in its line, by the position of an address. -/
theorem mem_piece_iff (hn : pos + n ≤ 2 ^ 64) (hline : ls.getLineOffset (gp.addrAt pos) + n ≤ ls.size) :
    (ls.getTag x = ls.getTag (gp.addrAt pos) ∧ ls.getLineOffset (gp.addrAt pos) ≤ ls.getLineOffset x ∧
        ls.getLineOffset x < ls.getLineOffset (gp.addrAt pos) + n) ↔ pos ≤ gp.posOf x ∧ gp.posOf x < pos + n := by
  rw [← toNat_sub_addrAt_lt hn]
  exact (toNat_sub_lt_iff ls.bits_le hline).symm

@[simp] theorem inCache_updateLine (a : Addr) (sec : Bool) : (c.updateLine ls gp pos).inCache ls a sec = c.inCache ls a sec := by
  unfold updateLine
  split
  · simp only [inCache, writeLine, getLine_setLine, lineIndex_setLine]
    split
    · rename_i h
      simp only [getLine, h]
      rfl
    · rfl
  · rfl

/-- The line of a piece after `write_line`, at an address that is in the cache. -/
theorem byteAt_updateLine (hn : pos + toWrite ls gp pos ≤ 2 ^ 64) (hx : c.inCache ls x gp.getSecure = true) :
    byteAt ls (c.updateLine ls gp pos) x =
      if (pos ≤ gp.posOf x ∧ gp.posOf x < pos + toWrite ls gp pos) ∧ gp.enabled (gp.posOf x) = true then gp.data (gp.posOf x)
      else byteAt ls c x := by
  have hline := getLineOffset_add_toWrite ls gp pos
  have hpiece := mem_piece_iff (x := x) hn hline
  unfold updateLine
  split
  · rename_i hin
    by_cases hidx : c.lineIndex ls x = c.lineIndex ls (gp.addrAt pos)
    · -- the same line: both addresses are in the cache, so they have the tag of the line
      have htag : ls.getTag x = ls.getTag (gp.addrAt pos) := by
        rw [← ((inCache_eq_true ls c).1 hx).2.1, ← ((inCache_eq_true ls c).1 hin).2.1, getLine, hidx]
        rfl
      have hoff : ls.getLineOffset (gp.addrAt pos) ≤ ls.getLineOffset x →
          ls.getLineOffset x < ls.getLineOffset (gp.addrAt pos) + toWrite ls gp pos →
          pos + (ls.getLineOffset x - ls.getLineOffset (gp.addrAt pos)) = gp.posOf x := by
        intro hle hlt
        have hin := hpiece.1 ⟨htag, hle, hlt⟩
        have hsub := toNat_sub_of_sameLine ls.bits_le htag hle
        rw [toNat_sub_addrAt hin.1] at hsub
        have : gp.posOf x - pos = ls.getLineOffset x - ls.getLineOffset (gp.addrAt pos) := hsub
        omega
      simp only [htag, true_and] at hpiece
      simp only [byteAt, writeLine, getLine_setLine, lineIndex_setLine, hidx, if_true]
      by_cases hm : ls.getLineOffset (gp.addrAt pos) ≤ ls.getLineOffset x ∧
          ls.getLineOffset x < ls.getLineOffset (gp.addrAt pos) + toWrite ls gp pos
      · simp [hm, hpiece.1 hm, hoff hm.1 hm.2, getLine, hidx]
      · have hm' : ¬ (pos ≤ gp.posOf x ∧ gp.posOf x < pos + toWrite ls gp pos) := fun h => hm (hpiece.2 h)
        simp only [← and_assoc, hm, hm', false_and, if_false, getLine, hidx]
    · have hm : ¬ (pos ≤ gp.posOf x ∧ gp.posOf x < pos + toWrite ls gp pos) := fun h =>
        hidx (by rw [← lineIndex_getTag, (hpiece.2 h).1, lineIndex_getTag])
      simp only [byteAt, writeLine, getLine_setLine, lineIndex_setLine, hidx, if_false, hm, false_and]
  · rename_i hin
    have hm : ¬ (pos ≤ gp.posOf x ∧ gp.posOf x < pos + toWrite ls gp pos) := fun h =>
      hin (by rw [← inCache_getTag, ← (hpiece.2 h).1, inCache_getTag, hx])
    simp [hm]

end Piece

/-! ### The loops of a store -/

section Store

variable {ls : LineSize} {c : Cache} {mem : Addr → Byte} {gp : Payload} {pos n : ℕ} {x : Addr}

/-- The loop of `write_unique` runs once when the position is below the length of the piece, and else not at all. -/
theorem writeUniqueLoop_eq (hn : n = toWrite ls gp pos) :
    writeUniqueLoop ls gp n n c pos = if pos < n then c.updateLine ls gp pos else c := by
  have hmax : ¬ ls.size - ls.getLineOffset (gp.addrAt pos) < n := by
    rw [hn, toWrite]
    omega
  split
  · rename_i hlt
    obtain ⟨k, rfl⟩ : ∃ k, n = k + 1 := ⟨n - 1, by omega⟩
    have hend : ¬ pos + (k + 1) < k + 1 := by omega
    rw [writeUniqueLoop, if_pos hlt]
    simp only [if_neg hmax]
    cases k with
    | zero => rfl
    | succ k => rw [writeUniqueLoop, if_neg hend]
  · rename_i hge
    cases n with
    | zero => rfl
    | succ k => rw [writeUniqueLoop, if_neg hge]

/-- A piece of a store: what happens to the cache, and to the memory. -/
def pieceOf (ls : LineSize) (c : Cache) (mem : Addr → Byte) (gp : Payload) (pos : ℕ) : Cache × (Addr → Byte) :=
  if toWrite ls gp pos = ls.size ∧ noSparseWstrb ls gp pos = true then writeLineUnique ls c mem gp pos
  else writeUnique ls c mem gp pos (toWrite ls gp pos)

theorem pieceOf_eq (ls : LineSize) (c : Cache) (mem : Addr → Byte) (gp : Payload) (pos : ℕ) :
    pieceOf ls c mem gp pos =
      (if (toWrite ls gp pos = ls.size ∧ noSparseWstrb ls gp pos = true) ∨ pos < toWrite ls gp pos then c.updateLine ls gp pos else c,
        doTlm mem gp pos (toWrite ls gp pos)) := by
  unfold pieceOf
  split
  · rename_i h
    simp [writeLineUnique, h]
  · rename_i h
    simp [writeUnique, writeUniqueLoop_eq rfl, h]

theorem getLineOffset_next (h : pos + toWrite ls gp pos < gp.dataLength) : ls.getLineOffset (gp.addrAt (pos + toWrite ls gp pos)) = 0 := by
  have hlt := ls.getLineOffset_lt (gp.addrAt pos)
  have hsum : ls.getLineOffset (gp.addrAt pos) + toWrite ls gp pos = ls.size := by
    unfold toWrite at h ⊢
    omega
  have hdvd : 2 ^ ls.bits ∣ 2 ^ 64 := Nat.pow_dvd_pow 2 ls.bits_le
  rw [addrAt_eq, hsum, LineSize.getLineOffset, offsetOf_eq ls.bits_le, BitVec.toNat_add, BitVec.toNat_ofNat, Nat.add_mod_mod,
    Nat.mod_mod_of_dvd _ hdvd, LineSize.getTag, toNat_lineOf ls.bits_le]
  simp [LineSize.size]

/-- Where the piece of a byte starts, for the pieces of the loop. -/
theorem pieceStart_eq {d : ℕ} (hstart : pos = 0 ∨ ls.getLineOffset (gp.addrAt pos) = 0) (hle : pos ≤ d) (hlt : d < pos + toWrite ls gp pos) :
    pieceStart ls gp d = pos := by
  have hline := getLineOffset_add_toWrite ls gp pos
  have hoff : ls.getLineOffset (gp.addrAt d) = ls.getLineOffset (gp.addrAt pos) + (d - pos) := by
    rw [← Nat.add_sub_cancel' hle, addrAt_add, Nat.add_sub_cancel_left]
    refine offsetOf_add_of_offset ls.bits_le _ (lt_of_lt_of_le ?_ hline)
    show ls.getLineOffset (gp.addrAt pos) + (d - pos) < _
    omega
  unfold pieceStart
  rw [hoff]
  omega

/-- What a store has done from position `a` up to position `b` of its payload. -/
structure Stored (ls : LineSize) (gp : Payload) (a b : ℕ) (r r' : Cache × (Addr → Byte)) : Prop where
  inCache : ∀ x sec, r'.1.inCache ls x sec = r.1.inCache ls x sec
  bytes : ∀ x, r.1.inCache ls x gp.getSecure = true → byteAt ls r'.1 x =
    if (a ≤ gp.posOf x ∧ gp.posOf x < b) ∧ gp.enabled (gp.posOf x) = true ∧ Copied ls gp (gp.posOf x) then gp.data (gp.posOf x)
    else byteAt ls r.1 x
  mem : ∀ x, r'.2 x =
    if (a ≤ gp.posOf x ∧ gp.posOf x < b) ∧ gp.enabled (gp.posOf x) = true then gp.data (gp.posOf x) else r.2 x

theorem Stored.refl (r : Cache × (Addr → Byte)) {a b : ℕ} (hab : b ≤ a) : Stored ls gp a b r r := by
  have hno : ∀ x, ¬ (a ≤ gp.posOf x ∧ gp.posOf x < b) := fun x h => by omega
  exact ⟨fun _ _ => rfl, fun x _ => by simp [hno], fun x => by simp [hno]⟩

theorem Stored.trans {r r' r'' : Cache × (Addr → Byte)} {a b e : ℕ} (h : Stored ls gp a b r r') (h' : Stored ls gp b e r' r'')
    (hab : a ≤ b) (hbe : b ≤ e) : Stored ls gp a e r r'' := by
  have hsplit : ∀ x, (a ≤ gp.posOf x ∧ gp.posOf x < e) ↔
      (a ≤ gp.posOf x ∧ gp.posOf x < b) ∨ (b ≤ gp.posOf x ∧ gp.posOf x < e) := fun x => by omega
  constructor
  · exact fun x sec => (h'.inCache x sec).trans (h.inCache x sec)
  · intro x hx
    rw [h'.bytes x ((h.inCache x _).trans hx), h.bytes x hx]
    simp only [hsplit]
    grind
  · intro x
    rw [h'.mem, h.mem]
    simp only [hsplit]
    grind

theorem stored_pieceOf (hlen : gp.dataLength ≤ 2 ^ 64) (hpos : pos < gp.dataLength)
    (hstart : pos = 0 ∨ ls.getLineOffset (gp.addrAt pos) = 0) :
    Stored ls gp pos (pos + toWrite ls gp pos) (c, mem) (pieceOf ls c mem gp pos) := by
  have hle := toWrite_le ls gp pos
  have hpn : pos + toWrite ls gp pos ≤ 2 ^ 64 := by omega
  rw [pieceOf_eq]
  constructor
  · intro x sec
    dsimp only
    split
    · exact inCache_updateLine x sec
    · rfl
  · intro x hx
    dsimp only
    by_cases hin : pos ≤ gp.posOf x ∧ gp.posOf x < pos + toWrite ls gp pos
    · have hcopied : Copied ls gp (gp.posOf x) ↔
          (toWrite ls gp pos = ls.size ∧ noSparseWstrb ls gp pos = true) ∨ pos < toWrite ls gp pos := by
        rw [Copied, pieceStart_eq hstart hin.1 hin.2]
      by_cases hc : Copied ls gp (gp.posOf x)
      · rw [if_pos (hcopied.1 hc), byteAt_updateLine hpn hx]
        simp [hin, hc]
      · rw [if_neg fun h => hc (hcopied.2 h)]
        simp [hc]
    · split
      · rw [byteAt_updateLine hpn hx]
        simp [hin]
      · simp [hin]
  · exact fun x => doTlm_apply hpn

/-- The loop of `handle_store`, from a position on. -/
theorem stored_loop (hlen : gp.dataLength ≤ 2 ^ 64) (fuel : ℕ) (c : Cache) (mem : Addr → Byte) (pos : ℕ)
    (hfuel : gp.dataLength - pos ≤ fuel) (hstart : pos < gp.dataLength → pos = 0 ∨ ls.getLineOffset (gp.addrAt pos) = 0) :
    Stored ls gp pos gp.dataLength (c, mem) (storeLoopThrough ls gp fuel c mem pos) := by
  induction fuel generalizing c mem pos with
  | zero => exact .refl _ (by omega)
  | succ fuel ih =>
    unfold storeLoopThrough
    split
    · rename_i hpos
      have hpp := toWrite_pos ls hpos
      have hle := toWrite_le ls gp pos
      refine (stored_pieceOf hlen hpos (hstart hpos)).trans ?_ (by omega) (by omega)
      exact ih _ _ _ (by omega) fun h => .inr (getLineOffset_next h)
    · exact .refl _ (by omega)

theorem stored_handleStore (hlen : gp.dataLength ≤ 2 ^ 64) (c : Cache) (mem : Addr → Byte) :
    Stored ls gp 0 gp.dataLength (c, mem) (handleStore ls c mem gp) :=
  stored_loop hlen _ c mem 0 le_rfl fun _ => .inl rfl

/-- The touched lines agree with the memory after a store exactly when it is `StoreOk`. -/
theorem agrees_iff (hlen : gp.dataLength ≤ 2 ^ 64) :
    (∀ x, gp.TouchesLine ls x → (handleStore ls c mem gp).1.inCache ls x gp.getSecure = true →
      byteAt ls (handleStore ls c mem gp).1 x = (handleStore ls c mem gp).2 x) ↔ StoreOk ls c mem gp := by
  have h : Stored ls gp 0 gp.dataLength (c, mem) (handleStore ls c mem gp) := stored_handleStore hlen c mem
  refine forall_congr' fun x => forall_congr' fun _ => ?_
  rw [h.inCache]
  refine forall_congr' fun hx => ?_
  rw [h.bytes x hx, h.mem]
  by_cases hst : gp.Stores x
  · obtain ⟨hlt, hen⟩ := hst
    by_cases hc : Copied ls gp (gp.posOf x) <;> simp [Payload.Stores, hlt, hen, hc]
  · have hno : ¬ ((0 ≤ gp.posOf x ∧ gp.posOf x < gp.dataLength) ∧ gp.enabled (gp.posOf x) = true) := fun h => hst ⟨h.1.2, h.2⟩
    rw [if_neg fun h => hno ⟨h.1, h.2.1⟩, if_neg hno, if_neg hst]

end Store

/-! ### Lines are never dirty -/

/-- No line of the cache is dirty. -/
def Clean (c : Cache) : Prop := ∀ i, (c.lines i).dirty = false

section Clean

variable {ls : LineSize} {c : Cache} {mem : Addr → Byte} {gp : Payload}

theorem Clean.setLine (h : Clean c) (addr : Addr) {l : CacheLine} (hl : l.dirty = false) : Clean (c.setLine ls addr l) := by
  intro i
  rw [lines_setLine]
  split
  · exact hl
  · exact h i

theorem Clean.updateLine (h : Clean c) (pos : ℕ) : Clean (c.updateLine ls gp pos) := by
  unfold Cache.updateLine
  split
  · refine (h.setLine _ rfl).setLine _ ?_
    simp [writeLine]
  · exact h

theorem Clean.writeUniqueLoop (h : Clean c) (len fuel pos : ℕ) : Clean (writeUniqueLoop ls gp len fuel c pos) := by
  induction fuel generalizing c pos with
  | zero => exact h
  | succ fuel ih =>
    unfold Cache.writeUniqueLoop
    split
    · exact ih (h.updateLine pos) _
    · exact h

theorem Clean.storeLoopThrough (h : Clean c) (fuel pos : ℕ) : Clean (storeLoopThrough ls gp fuel c mem pos).1 := by
  induction fuel generalizing c mem pos with
  | zero => exact h
  | succ fuel ih =>
    unfold Cache.storeLoopThrough
    split
    · refine ih ?_ _
      split
      · exact h.updateLine pos
      · exact h.writeUniqueLoop _ _ pos
    · exact h

/-- A clean line is evicted without a transfer of data. -/
theorem evictLine_eq (h : Clean c) (mem : Addr → Byte) (addr : Addr) : c.evictLine ls mem addr = (c.evict ls addr, mem) := by
  have hd : (c.getLine ls addr).dirty = false := h _
  simp only [evictLine, hd, Bool.false_eq_true, if_false]

theorem Clean.readClean (h : Clean c) (addr : Addr) : Clean (c.readClean ls mem gp addr).1 := by
  unfold Cache.readClean
  rw [evictLine_eq h]
  refine Clean.setLine ?_ addr rfl
  split
  · exact h.setLine addr (h _)
  · exact h

theorem readClean_mem (h : Clean c) (addr : Addr) : (c.readClean ls mem gp addr).2 = mem := by
  unfold Cache.readClean
  rw [evictLine_eq h]
  split <;> rfl

/-- The cache after a fetch: the line is there, with the bytes of the memory. -/
theorem readClean_getLine (h : Clean c) (addr a : Addr) :
    (c.readClean ls mem gp addr).1.getLine ls a =
      if c.lineIndex ls a = c.lineIndex ls addr then
        { valid := true, tag := ls.getTag addr, shared := false, dirty := false
          data := readFrom mem (ls.getTag addr), secure := gp.getSecure }
      else c.getLine ls a := by
  unfold Cache.readClean
  rw [evictLine_eq h]
  split
  · by_cases hidx : c.lineIndex ls a = c.lineIndex ls addr
    · simp [getLine_setLine, evict, hidx]
    · simp [getLine_setLine, evict, hidx]
  · rw [getLine_setLine]

end Clean

/-! ### Loads -/

section Load

variable {ls : LineSize} {c : Cache} {mem : Addr → Byte} {gp : Payload} {T : Addr → Prop} {sec : Bool}

/-- The lines of a set of addresses agree with the memory. -/
def Agree (ls : LineSize) (T : Addr → Prop) (sec : Bool) (c : Cache) (mem : Addr → Byte) : Prop :=
  ∀ x, T x → c.inCache ls x sec = true → byteAt ls c x = mem x

theorem Agree.readClean (h : Agree ls T gp.getSecure c mem) (hc : Clean c) (addr : Addr) :
    Agree ls T gp.getSecure (c.readClean ls mem gp addr).1 mem := by
  intro x hx hin
  rw [inCache_eq_true, readClean_getLine hc] at hin
  rw [byteAt, readClean_getLine hc]
  split at hin
  · rename_i hidx
    rw [if_pos hidx]
    show mem (ls.getTag addr + BitVec.ofNat 64 (ls.getLineOffset x)) = mem x
    rw [show ls.getTag addr = ls.getTag x from hin.2.1, getTag_add_getLineOffset]
  · rename_i hidx
    rw [if_neg hidx]
    exact h x hx ((inCache_eq_true ls c).2 hin)

theorem readClean_inCache (hc : Clean c) (addr : Addr) :
    (c.readClean ls mem gp addr).1.inCache ls addr gp.getSecure = true := by
  rw [inCache_eq_true, readClean_getLine hc, if_pos rfl]
  exact ⟨rfl, rfl, rfl⟩

/-- The address and the place in the line of a byte of the segment at `pos`. -/
theorem segment_byte {pos q : ℕ} (hle : pos ≤ q) (hlt : q < pos + toWrite ls gp pos) :
    ls.getTag (gp.addrAt q) = ls.getTag (gp.addrAt pos) ∧
      ls.getLineOffset (gp.addrAt q) = ls.getLineOffset (gp.addrAt pos) + (q - pos) := by
  have hoff : ls.getLineOffset (gp.addrAt pos) + (q - pos) < ls.size := by
    have hline := getLineOffset_add_toWrite ls gp pos
    omega
  rw [show gp.addrAt q = gp.addrAt pos + BitVec.ofNat 64 (q - pos) by rw [← addrAt_add, Nat.add_sub_cancel' hle]]
  exact ⟨lineOf_add_of_offset ls.bits_le _ hoff, offsetOf_add_of_offset ls.bits_le _ hoff⟩

/-- What a load has read when it is done: the enabled bytes from `pos` on whose lines agree with the
memory are the memory's, and those before `pos` are left alone. -/
theorem loadLoopThrough_data (fuel : ℕ) (c : Cache) (gp : Payload) (pos : ℕ) (hc : Clean c) (h : Agree ls T gp.getSecure c mem)
    (hfuel : 2 * (gp.dataLength - pos) ≤ fuel + if c.inCache ls (gp.addrAt pos) gp.getSecure then 1 else 0) {q : ℕ}
    (hq : q < gp.dataLength) (hen : gp.enabled q = true) (hT : T (gp.addrAt q)) :
    (loadLoopThrough ls fuel c mem gp pos).2.2.data q = if pos ≤ q then mem (gp.addrAt q) else gp.data q := by
  induction fuel generalizing c gp pos with
  | zero =>
    have hend : ¬ pos ≤ q := by
      split at hfuel <;> omega
    simp [loadLoopThrough, hend]
  | succ fuel ih =>
    unfold loadLoopThrough
    split
    · rename_i hpos
      split
      · rename_i hin
        have hpp := toWrite_pos ls hpos
        rw [if_pos hin] at hfuel
        have hnext := ih c (c.readLine ls gp pos) (pos + toWrite ls gp pos) hc h
          (by
            show 2 * (gp.dataLength - _) ≤ _
            omega) hq hen hT
        rw [hnext]
        by_cases hseg : pos ≤ q ∧ q < pos + toWrite ls gp pos
        · obtain ⟨htag, hoff⟩ := segment_byte hseg.1 hseg.2
          have hxin : c.inCache ls (gp.addrAt q) gp.getSecure = true := by
            rw [← inCache_getTag, htag, inCache_getTag, hin]
          have hbyte := h _ hT hxin
          rw [if_neg (by omega), if_pos hseg.1, ← hbyte, byteAt, hoff, ← getLine_getTag, htag, getLine_getTag]
          simp [readLine, hseg, hen]
        · by_cases hlater : pos + toWrite ls gp pos ≤ q
          · rw [if_pos hlater, if_pos (by omega)]
            rfl
          · rw [if_neg hlater, if_neg (by omega)]
            simp [readLine, show ¬ pos ≤ q by omega]
      · rename_i hin
        rw [if_neg hin] at hfuel
        dsimp only
        rw [readClean_mem hc]
        refine ih _ gp pos (hc.readClean _) (h.readClean hc _) ?_ hq hen hT
        rw [if_pos (readClean_inCache hc _)]
        omega
    · rw [if_neg (by omega)]

/-- A load returns the memory's bytes for the lines that agree with it. -/
theorem handleLoad_data (hc : Clean c) (h : Agree ls T gp.getSecure c mem) {q : ℕ} (hq : q < gp.dataLength)
    (hen : gp.enabled q = true) (hT : T (gp.addrAt q)) : (handleLoad ls c mem gp).data q = mem (gp.addrAt q) := by
  have hdata := loadLoopThrough_data (2 * gp.dataLength) c gp 0 hc h (by omega) hq hen hT
  simpa [handleLoad, Payload.clearExokay, Payload.setExclusiveHandled] using hdata

end Load

/-! ### What a store leaves -/

/-- **Write-through coherence.** After a store of any length and byte enables into any state of the
cache, the lines it touches agree with the memory, and a load returns what was stored, exactly when
the store is `StoreOk`. -/
theorem storeVisible_iff (ls : LineSize) (c : WriteThrough) (mem : Addr → Byte) (gp : Payload) (hlen : gp.dataLength < 2 ^ 32) :
    StoreVisible ls c.cache mem gp ↔ StoreOk ls c.cache mem gp := by
  have hlen' : gp.dataLength ≤ 2 ^ 64 := by omega
  have hagree : (∀ x, gp.TouchesLine ls x → (handleStore ls c.cache mem gp).1.inCache ls x gp.getSecure = true →
      byteAt ls (handleStore ls c.cache mem gp).1 x = (handleStore ls c.cache mem gp).2 x) ↔ StoreOk ls c.cache mem gp :=
    agrees_iff hlen'
  refine ⟨fun h => hagree.1 h.agrees, fun h => ⟨hagree.2 h, fun g hsec q hq hen hst => ?_⟩⟩
  have hclean : Clean (handleStore ls c.cache mem gp).1 := Clean.storeLoopThrough c.clean _ 0
  have hT : gp.TouchesLine ls (g.addrAt q) := ⟨gp.posOf (g.addrAt q), hst.1, by rw [addrAt_posOf]⟩
  have hlines : Agree ls (gp.TouchesLine ls) g.getSecure (handleStore ls c.cache mem gp).1 (handleStore ls c.cache mem gp).2 :=
    hsec ▸ hagree.2 h
  rw [handleLoad_data hclean hlines hq hen hT, (stored_handleStore hlen' c.cache mem).mem]
  exact if_pos ⟨⟨Nat.zero_le _, hst.1⟩, hst.2⟩

/-- A cache of two lines of 64 bytes that holds the lines `0` and `64` of a memory of zeros. -/
def zeroLines : WriteThrough where
  cache := { cacheSz := 128, lines := fun i => { valid := true, tag := BitVec.ofNat 64 (64 * i), secure := false } }
  clean _ := rfl

/-- A store of `n` ones from `0x20` on. -/
def storeOnes (n : ℕ) : Payload := { write := true, address := 0x20, dataLength := n, data := fun _ => 1 }

/-- A store that stays in its line. -/
theorem storeVisible_of_line : StoreVisible .default zeroLines.cache (fun _ => 0) (storeOnes 16) := by
  have hcopied : ∀ d < (storeOnes 16).dataLength, Copied .default (storeOnes 16) d := by decide
  refine (storeVisible_iff .default zeroLines (fun _ => 0) (storeOnes 16) (by decide)).2 fun x hx hin => ?_
  split
  · rename_i hst
    exact .inl (hcopied _ hst.1)
  · rfl

/-- The second half of a store of 64 bytes from `0x20` on is not copied to its line. -/
theorem not_storeVisible :
    ¬ ∀ (c : WriteThrough) (mem : Addr → Byte) (gp : Payload), gp.dataLength < 2 ^ 32 →
      (∀ x sec, c.cache.inCache .default x sec = true → byteAt .default c.cache x = mem x) →
        StoreVisible .default c.cache mem gp := by
  intro h
  have hv := h zeroLines (fun _ => 0) (storeOnes 64) (by decide) fun _ _ _ => rfl
  have hx := (agrees_iff (by decide)).1 hv.agrees 0x40 ⟨32, by decide, by decide⟩ (by decide)
  rw [if_pos (by decide)] at hx
  exact absurd hx (by decide)

end LibSystemCTLM.Ace
