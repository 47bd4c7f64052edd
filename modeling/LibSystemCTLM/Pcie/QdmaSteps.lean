import LibSystemCTLM.Pcie.Qdma
import LibSystemCTLM.Foundation.Results

/-!
# The parts of `run_mm_dma`

What each part of the loop does: which parts of the state it leaves, whatever the accesses to memory return, and what
it computes when they succeed. `fetch_descriptor` gets the bytes of the descriptor (`fetchWords_eq`), and
`do_mm_dma` copies whole words (`copyWords_eq`), so as many bytes as asked for exactly if what it copies beyond
them is there already (`storeBytes_words`).
-/

namespace LibSystemCTLM.Qdma

open Foundation Tlm

variable {cfg : Cfg} {s : State}

/-! ### Accesses that succeed -/

theorem fetchWords_eq {bus : Bus} {mem : Addr → Byte} {addr : Addr} (n i : ℕ) (desc : ℕ → Byte)
    (h : ∀ k < n, bus.readOk (addr + BitVec.ofNat 64 (i + 4 * k)) = true) :
    fetchWords bus mem addr n i desc =
      (fun k => if i ≤ k ∧ k < i + 4 * n then mem (addr + BitVec.ofNat 64 k) else desc k, true) := by
  induction n generalizing i desc with
  | zero =>
    have hsame : (fun k => if i ≤ k ∧ k < i + 4 * 0 then mem (addr + BitVec.ofNat 64 k) else desc k) = desc := by
      funext k
      rw [if_neg (by omega)]
    rw [fetchWords, hsame]
  | succ n ih =>
    have h0 : bus.readOk (addr + BitVec.ofNat 64 i) = true := h 0 (by omega)
    have hrest : ∀ k < n, bus.readOk (addr + BitVec.ofNat 64 (i + 4 + 4 * k)) = true := by
      intro k hk
      have := h (k + 1) (by omega)
      rwa [show i + 4 * (k + 1) = i + 4 + 4 * k by omega] at this
    rw [fetchWords, if_pos h0, ih _ _ hrest]
    refine Prod.ext (funext fun k => ?_) rfl
    by_cases h1 : i + 4 ≤ k ∧ k < i + 4 + 4 * n
    · simp only
      rw [if_pos h1, if_pos (by omega)]
    · simp only
      rw [if_neg h1]
      by_cases h2 : i ≤ k ∧ k < i + 4
      · rw [if_pos h2, if_pos (by omega)]
      · rw [if_neg h2, if_neg (by omega)]

theorem copyWords_eq {init tgt : Bus} {src : Addr → Byte} (n : ℕ) (a d : Addr) (mem : Addr → Byte) (hn : 4 * n ≤ 2 ^ 64)
    (h : ∀ k < n, init.readOk (a + BitVec.ofNat 64 (4 * k)) = true ∧ tgt.writeOk (d + BitVec.ofNat 64 (4 * k)) = true) :
    copyWords init tgt src n a d mem = (storeBytes mem d (loadBytes src a (4 * n)), true) := by
  induction n generalizing a d mem with
  | zero => rfl
  | succ n ih =>
    have h0 := h 0 (by omega)
    rw [Nat.mul_zero, BitVec.add_zero, BitVec.add_zero] at h0
    have hrest : ∀ k < n, init.readOk (a + 4 + BitVec.ofNat 64 (4 * k)) = true ∧ tgt.writeOk (d + 4 + BitVec.ofNat 64 (4 * k)) = true := by
      intro k hk
      have hnext : ∀ x : Addr, x + BitVec.ofNat 64 (4 * (k + 1)) = x + 4 + BitVec.ofNat 64 (4 * k) := by
        intro x
        rw [show 4 * (k + 1) = 4 + 4 * k by omega, BitVec.ofNat_add, BitVec.add_assoc]
        rfl
      have := h (k + 1) (by omega)
      rwa [hnext, hnext] at this
    rw [copyWords, h0.1, h0.2, if_neg (by decide), if_neg (by decide), ih _ _ _ (by omega) hrest,
      show 4 * (n + 1) = 4 + 4 * n by omega, storeBytes_loadBytes_add _ _ _ _ (by omega)]
    rfl

/-- Bytes that are there already may be stored as well. -/
theorem storeBytes_words {src mem : Addr → Byte} {a d : Addr} {n m : ℕ} (hm : n ≤ m)
    (h : ∀ k < m, n ≤ k → mem (d + BitVec.ofNat 64 k) = src (a + BitVec.ofNat 64 k)) :
    storeBytes mem d (loadBytes src a m) = storeBytes mem d (loadBytes src a n) := by
  funext x
  have hx : d + BitVec.ofNat 64 (x - d).toNat = x := by
    rw [BitVec.ofNat_toNat, BitVec.setWidth_eq, BitVec.add_comm, BitVec.sub_add_cancel]
  simp only [storeBytes]
  by_cases hn : (x - d).toNat < n
  · rw [getElem?_loadBytes _ _ hn, getElem?_loadBytes _ _ (by omega)]
  · rw [List.getElem?_eq_none (by simpa using hn : (loadBytes src a n).length ≤ _), Option.getD_none]
    by_cases hm' : (x - d).toNat < m
    · rw [getElem?_loadBytes _ _ hm', Option.getD_some, ← h _ hm' (by omega), hx]
    · rw [List.getElem?_eq_none (by simpa using hm' : (loadBytes src a m).length ≤ _), Option.getD_none]

/-! ### What stays -/

namespace State

/-- Nothing but memory changes. -/
structure SameButMemory (s s' : State) : Prop where
  ctx : s'.ctx = s.ctx
  irqRingEntryIdx : s'.irqRingEntryIdx = s.irqRingEntryIdx
  busy : s'.busy = s.busy
  fault : s'.fault = s.fault
  runs : s'.runs = s.runs
  events : s'.events = s.events
  disturbed : s'.disturbed = s.disturbed
  blank : s'.blank = s.blank

/-- What the runs so far were. -/
structure SameRuns (s s' : State) : Prop where
  runs : s'.runs = s.runs
  disturbed : s'.disturbed = s.disturbed

/-- Nothing was added where a part of a turn threw. -/
structure Thrown (s s' : State) : Prop extends SameRuns s s' where
  events : s'.events = s.events
  faulted : s'.fault ≠ none

theorem post_report {α : Type} {P : α → Prop} {E : State → Prop} {x : α} (hP : P x) (hE : E { s with fault := some .error }) :
    Post P E (s.report cfg x) := by
  rw [report]
  split_ifs
  · exact hE
  · exact hP

theorem post_fetchDescriptor (addr : Addr) (size : ℕ) (desc : ℕ → Byte) :
    Post (fun _ => True) (Thrown s) (s.fetchDescriptor cfg addr size desc) := by
  rw [fetchDescriptor]
  split
  · trivial
  · exact post_report trivial ⟨⟨rfl, rfl⟩, rfl, nofun⟩

theorem post_doMmDma (src dst : Addr) (size : ℕ) (h2c : Bool) :
    Post (SameButMemory s) (Thrown s) (s.doMmDma cfg src dst size h2c) := by
  rw [doMmDma]
  split_ifs
  · split
    · exact ⟨rfl, rfl, rfl, rfl, rfl, rfl, rfl, rfl⟩
    · exact post_report ⟨rfl, rfl, rfl, rfl, rfl, rfl, rfl, rfl⟩ ⟨⟨rfl, rfl⟩, rfl, nofun⟩
  · split
    · exact ⟨rfl, rfl, rfl, rfl, rfl, rfl, rfl, rfl⟩
    · exact post_report ⟨rfl, rfl, rfl, rfl, rfl, rfl, rfl, rfl⟩ ⟨⟨rfl, rfl⟩, rfl, nofun⟩

theorem post_writeStatus (b : Busy) : Post (SameButMemory s) (Thrown s) (s.writeStatus cfg b) := by
  refine (post_fetchDescriptor _ _ _).bind fun desc _ => ?_
  simp only
  split_ifs
  · exact ⟨rfl, rfl, rfl, rfl, rfl, rfl, rfl, rfl⟩
  · exact post_report ⟨rfl, rfl, rfl, rfl, rfl, rfl, rfl, rfl⟩ ⟨⟨rfl, rfl⟩, rfl, nofun⟩

/-- An interrupt adds to the events, and leaves what the loop goes by. -/
structure SameLoop (s s' : State) : Prop extends SameRuns s s' where
  busy : s'.busy = s.busy

theorem post_notify (vector : ℕ) : Post (SameLoop s) (SameRuns s) (s.notify vector) := by
  rw [notify]
  split_ifs
  · exact ⟨⟨rfl, rfl⟩, rfl⟩
  · exact ⟨rfl, rfl⟩

theorem sameLoop_nextEntry (ring : Queue) : SameLoop s (s.nextEntry cfg ring) := by
  rw [nextEntry]
  split_ifs
  · exact ⟨⟨rfl, rfl⟩, rfl⟩
  · exact ⟨⟨rfl, rfl⟩, rfl⟩

theorem SameLoop.trans {s₁ s₂ s₃ : State} (h : SameLoop s₁ s₂) (h' : SameLoop s₂ s₃) : SameLoop s₁ s₃ :=
  ⟨⟨h'.runs.trans h.runs, h'.disturbed.trans h.disturbed⟩, h'.busy.trans h.busy⟩

theorem SameLoop.trans_runs {s₁ s₂ s₃ : State} (h : SameLoop s₁ s₂) (h' : SameRuns s₂ s₃) : SameRuns s₁ s₃ :=
  ⟨h'.runs.trans h.runs, h'.disturbed.trans h.disturbed⟩

theorem post_putEntry (ring : Queue) (e : Entry) (stack : BitVec 64) : Post (SameLoop s) (SameRuns s) (s.putEntry cfg ring e stack) := by
  rw [putEntry]
  split_ifs
  · exact ⟨⟨rfl, rfl⟩, rfl⟩
  · exact post_report ⟨⟨rfl, rfl⟩, rfl⟩ ⟨rfl, rfl⟩

theorem post_writeIrqRingEntry (ring : Queue) (e : Entry) (stack : BitVec 64) :
    Post (SameLoop s) (SameRuns s) (s.writeIrqRingEntry cfg ring e stack) :=
  (post_putEntry ring e stack).bind fun _ h => h.trans (sameLoop_nextEntry ring)

theorem post_coalesce (b : Busy) (ring : Queue) : Post (SameLoop s) (SameRuns s) (s.coalesce cfg b ring) := by
  rw [coalesce]
  simp only
  split_ifs
  · exact post_report ⟨⟨rfl, rfl⟩, rfl⟩ ⟨rfl, rfl⟩
  · refine Post.bind (P := SameLoop s) ?_ fun s' h => ?_
    · exact (post_writeIrqRingEntry ring _ _).mono (fun _ h => ⟨⟨h.runs, h.disturbed⟩, h.busy⟩) fun _ h => ⟨h.runs, h.disturbed⟩
    · exact (post_notify _).mono (fun _ h' => h.trans h') fun _ h' => h.trans_runs h'

theorem post_interrupt (b : Busy) : Post (SameLoop s) (SameRuns s) (s.interrupt cfg b) := by
  rw [interrupt]
  split_ifs
  · exact ⟨⟨rfl, rfl⟩, rfl⟩
  · exact post_coalesce b _
  · exact ⟨rfl, rfl⟩
  · exact post_notify _

end State

end LibSystemCTLM.Qdma
