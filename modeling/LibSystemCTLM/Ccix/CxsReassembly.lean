import LibSystemCTLM.Ccix.CxsFlits

/-!
# TLPs are reassembled

What `CreateFlit` does to a flit is said once (`fill_spec`, `align_spec`), and so is what the
receiver does with the words where no TLP is (`rxWords_gap`), and with those of a TLP
(`rxWords_part`, `rxWords_end`). The flit is filled from its beginning on, and at each point what is
below it will be received, whatever comes behind (`Closed`, `Open`). So the flits bring
what was packed into them, if their control words bring the pointers (`reassembled_of_packed`).
-/

namespace LibSystemCTLM.Ccix.Cxs

open Foundation Relation

variable {cfg : Config}

/-! ### What is written -/

namespace Filling

variable {s : Filling} {n : ℕ}

/-- How many bytes of the TLP are written. -/
def room (cfg : Config) (s : Filling) : ℕ := min ((cfg.flitWidth - s.flitPos) / 8) (s.tlp.tlp.length - s.tlp.pos)

theorem dvd_flitWidth (cfg : Config) : 128 ∣ cfg.flitWidth := by
  rcases cfg.width with h | h | h <;> rw [h] <;> decide

/-- What `fill` leaves: the bytes of the TLP at their places, a start if the TLP begins, and an end if its last word is written. -/
structure Filled (cfg : Config) (s s' : Filling) : Prop where
  flitPos : s'.flitPos = s.flitPos + 8 * s.room cfg
  tlp : s'.tlp.tlp = s.tlp.tlp
  pos : s'.tlp.pos = s.tlp.pos + s.room cfg
  flit : ∀ j, s'.flit j = if s.flitPos / 8 ≤ j ∧ j < s.flitPos / 8 + s.room cfg then s.tlp.tlp.getD (s.tlp.pos + (j - s.flitPos / 8)) 0 else s.flit j
  starts : s'.cntl.startPtrs = s.cntl.startPtrs ++ if s.tlp.pos = 0 ∧ 0 < s.room cfg then [BitVec.ofNat 32 (s.flitPos / 128)] else []
  ends : s'.cntl.endPtrs = s.cntl.endPtrs ++ if s.tlp.pos ≤ s.tlp.tlp.length - 4 ∧ s.tlp.tlp.length - 4 < s.tlp.pos + s.room cfg then
    [BitVec.ofNat 32 ((s.flitPos + 8 * (s.tlp.tlp.length - 4 - s.tlp.pos)) / 32)] else []

/-- Nothing is written where there is no room. -/
theorem filled_self (h : s.room cfg = 0) : Filled cfg s s where
  flitPos := by rw [h]; rfl
  tlp := rfl
  pos := by rw [h]; rfl
  flit := fun j => by rw [h, if_neg (by omega)]
  starts := by rw [h, if_neg (by omega), List.append_nil]
  ends := by rw [h, if_neg (by omega), List.append_nil]

theorem room_putByte (hdvd : 8 ∣ s.flitPos) (h : s.flitPos < cfg.flitWidth ∧ ¬ s.tlp.Done) : s.room cfg = (s.putByte h.2).room cfg + 1 := by
  have hlt := TLP.lt_of_not_done h.2
  have hW := dvd_flitWidth cfg
  simp only [room, putByte, TLP.getTlpByte]
  omega

theorem filled_putByte {s' : Filling} (hdvd : 8 ∣ s.flitPos) (h : s.flitPos < cfg.flitWidth ∧ ¬ s.tlp.Done) (hs' : Filled cfg (s.putByte h.2) s') :
    Filled cfg s s' := by
  have hlt := TLP.lt_of_not_done h.2
  have hroom := room_putByte hdvd h
  have hlen := s.tlp.words
  have hpos : (s.putByte h.2).tlp.pos = s.tlp.pos + 1 := rfl
  have hflitPos : (s.putByte h.2).flitPos = s.flitPos + 8 := rfl
  have htlp : (s.putByte h.2).tlp.tlp = s.tlp.tlp := rfl
  refine ⟨by rw [hs'.flitPos, hflitPos, hroom]; omega, hs'.tlp, by rw [hs'.pos, hpos, hroom]; omega, fun j => ?_, ?_, ?_⟩
  · rw [hs'.flit j, hpos, hflitPos, htlp, hroom]
    have hfirst : (s.putByte h.2).flit j = if j = s.flitPos / 8 then s.tlp.tlp.getD s.tlp.pos 0 else s.flit j := by
      simp only [putByte, TLP.getTlpByte, Function.update_apply]
      by_cases hj : j = s.flitPos / 8
      · rw [if_pos hj, if_pos hj, List.getD_eq_getElem?_getD, List.getElem?_eq_getElem hlt, Option.getD_some, List.get_eq_getElem]
      · rw [if_neg hj, if_neg hj]
    rw [hfirst]
    rcases Nat.lt_trichotomy j (s.flitPos / 8) with hj | rfl | hj
    · rw [if_neg (by omega), if_neg (by omega), if_neg (by omega)]
    · rw [if_neg (by omega), if_pos rfl, if_pos (by omega), Nat.sub_self, Nat.add_zero]
    · by_cases hin : j < s.flitPos / 8 + ((s.putByte h.2).room cfg + 1)
      · rw [if_pos (by omega), if_pos (by omega), show s.tlp.pos + 1 + (j - (s.flitPos + 8) / 8) = s.tlp.pos + (j - s.flitPos / 8) by omega]
      · rw [if_neg (by omega), if_neg (by omega), if_neg (by omega)]
  · have hcntl : (s.putByte h.2).cntl.startPtrs = s.cntl.startPtrs ++ if s.tlp.pos = 0 then [BitVec.ofNat 32 (s.flitPos / 128)] else [] := by
      simp only [putByte, CXSCntl.addStartPtr, CXSCntl.addEndPtr]
      split_ifs <;> simp
    rw [hs'.starts, hcntl, hpos, if_neg fun hc : s.tlp.pos + 1 = 0 ∧ _ => absurd hc.1 (Nat.succ_ne_zero _), List.append_nil]
    congr 1
    exact if_congr (by omega) rfl rfl
  · have hcntl : (s.putByte h.2).cntl.endPtrs = s.cntl.endPtrs ++
        if s.tlp.MarkEndPtr then [BitVec.ofNat 32 (s.flitPos / 32)] else [] := by
      simp only [putByte, CXSCntl.addStartPtr, CXSCntl.addEndPtr]
      split_ifs <;> simp
    rw [hs'.ends, hcntl, hpos, htlp, hflitPos, List.append_assoc]
    congr 1
    by_cases hend : s.tlp.MarkEndPtr
    · have hmark : s.tlp.pos = s.tlp.tlp.length - 4 := hend
      rw [if_pos hend, if_neg (by omega), if_pos (by omega), show s.tlp.tlp.length - 4 - s.tlp.pos = 0 by omega]
      rfl
    · have hmark : ¬ s.tlp.pos = s.tlp.tlp.length - 4 := hend
      rw [if_neg hend, List.nil_append, show s.flitPos + 8 + 8 * (s.tlp.tlp.length - 4 - (s.tlp.pos + 1)) =
        if s.tlp.pos ≤ s.tlp.tlp.length - 4 then s.flitPos + 8 * (s.tlp.tlp.length - 4 - s.tlp.pos) else s.flitPos + 8 by split <;> omega]
      by_cases hin : s.tlp.pos ≤ s.tlp.tlp.length - 4 ∧ s.tlp.tlp.length - 4 < s.tlp.pos + s.room cfg
      · rw [if_pos (by omega), if_pos hin, if_pos hin.1]
      · rw [if_neg (by omega), if_neg hin]

/-- **The bytes of a TLP are written.** -/
theorem fill_spec (hdvd : 8 ∣ s.flitPos) (hn : s.room cfg ≤ n) : Filled cfg s (fill cfg n s) := by
  induction n generalizing s with
  | zero => exact filled_self (Nat.le_zero.1 hn)
  | succ n ih =>
    rw [fill]
    split
    case isTrue h =>
      have hroom := room_putByte hdvd h
      exact filled_putByte hdvd h (ih (Nat.dvd_add hdvd (Nat.dvd_refl 8)) (by omega))
    case isFalse h =>
      have hW := dvd_flitWidth cfg
      apply filled_self
      rw [room]
      by_cases hd : s.tlp.Done
      · rw [show s.tlp.pos = _ from hd, Nat.sub_self, Nat.min_zero]
      · rw [show cfg.flitWidth - s.flitPos = 0 by have hno : ¬ s.flitPos < cfg.flitWidth := fun hlt => h ⟨hlt, hd⟩; omega]
        simp

/-- The next place where a TLP may start. -/
def aligned (flitPos : ℕ) : ℕ := (flitPos + 127) / 128 * 128

/-- **Up to where a TLP may start, what is below stays.** -/
theorem align_spec (hdvd : 8 ∣ s.flitPos) (hle : s.flitPos ≤ cfg.flitWidth) (hn : (aligned s.flitPos - s.flitPos) / 8 ≤ n) :
    (align cfg n s).flitPos = aligned s.flitPos ∧ (align cfg n s).cntl = s.cntl ∧ (align cfg n s).tlp = s.tlp ∧
      ∀ j < s.flitPos / 8, (align cfg n s).flit j = s.flit j := by
  have hW := dvd_flitWidth cfg
  unfold aligned at hn ⊢
  induction n generalizing s with
  | zero =>
    rw [align]
    exact ⟨by omega, rfl, rfl, fun _ _ => rfl⟩
  | succ n ih =>
    rw [align]
    split
    case isTrue h =>
      obtain ⟨h₁, h₂, h₃, h₄⟩ := ih (s := { s with flit := Function.update s.flit (s.flitPos / 8) 0, flitPos := s.flitPos + 8 })
        (Nat.dvd_add hdvd (Nat.dvd_refl 8)) (by dsimp only; omega) (by dsimp only; omega)
      refine ⟨h₁.trans ?_, h₂, h₃, fun j hj => (h₄ j (by dsimp only; omega)).trans (Function.update_of_ne (by omega) _ _)⟩
      dsimp only
      omega
    case isFalse h => exact ⟨by omega, rfl, rfl, fun _ _ => rfl⟩

end Filling

/-- **What `CreateFlit` leaves**: the TLP is written from its place on. -/
theorem createFlit_spec (t : TLP) (flit : Flit) (cntl : CXSCntl) {p : ℕ} (hdvd : 8 ∣ p) (hle : p ≤ cfg.flitWidth) :
    ∃ s : Filling, Filling.Filled cfg s (createFlit cfg t flit p cntl) ∧ s.flitPos = (if t.pos = 0 then Filling.aligned p else p) ∧ s.tlp = t ∧
      s.cntl = cntl ∧ ∀ j < p / 8, s.flit j = flit j := by
  have hroom : ∀ s : Filling, s.room cfg ≤ cfg.flitWidth := fun s => by
    rw [Filling.room]
    omega
  have hW := Filling.dvd_flitWidth cfg
  rw [createFlit]
  by_cases ht : t.pos = 0
  · rw [if_pos ht, if_pos ht]
    obtain ⟨h₁, h₂, h₃, h₄⟩ := Filling.align_spec (s := ⟨flit, p, cntl, t⟩) (n := cfg.flitWidth) hdvd hle
      (by unfold Filling.aligned; dsimp only; omega)
    exact ⟨_, Filling.fill_spec (by rw [h₁]; unfold Filling.aligned; dsimp only; omega) (hroom _), h₁, h₃, h₂, h₄⟩
  · rw [if_neg ht, if_neg ht]
    exact ⟨⟨flit, p, cntl, t⟩, Filling.fill_spec hdvd (hroom _), rfl, rfl, rfl, fun _ _ => rfl⟩

/-! ### What is collected -/

section Words

variable {F : Flit} {a : Assembler} {as : List Assembler} {rx : Rx} {rec : List (List (BitVec 8))} {m n p : ℕ}

/-- The bytes of `n` words. -/
def bytesAt (F : Flit) (p n : ℕ) : List (BitVec 8) := (List.range (4 * n)).map fun i => F (p / 8 + i)

theorem bytesAt_succ (F : Flit) (hp : 32 ∣ p) (n : ℕ) :
    bytesAt F p (n + 1) = [F (p / 8), F (p / 8 + 1), F (p / 8 + 2), F (p / 8 + 3)] ++ bytesAt F (p + 32) n := by
  rw [bytesAt, show 4 * (n + 1) = 4 + 4 * n by omega, List.range_add, List.map_append, List.map_map, bytesAt]
  congr 1
  refine List.map_congr_left fun i _ => congrArg F ?_
  show p / 8 + (4 + i) = _
  omega

theorem pushBack_flitWord (F : Flit) (p : ℕ) (a : Assembler) : a.pushBack (flitWord F p) =
    { a with data := a.data ++ [F (p / 8), F (p / 8 + 1), F (p / 8 + 2), F (p / 8 + 3)] } := by
  have hbytes := wordBytes_word32 (F (p / 8 + 3)) (F (p / 8 + 2)) (F (p / 8 + 1)) (F (p / 8))
  simp only [wordBytes, List.cons.injEq, and_true] at hbytes
  obtain ⟨h₃, h₂, h₁, h₀⟩ := hbytes
  rw [Assembler.pushBack, flitWord, h₀, h₁, h₂, h₃]

theorem rxWords_add (F : Flit) (m n p : ℕ) (rx : Rx) : rxWords F (m + n) p rx = rxWords F n (p + 32 * m) (rxWords F m p rx) := by
  induction m generalizing p rx with
  | zero => rw [Nat.zero_add, rxWords, Nat.mul_zero, Nat.add_zero]
  | succ m ih =>
    rw [Nat.succ_add, rxWords, ih, rxWords]
    congr 1
    omega

/-- Nothing is collected before the first start. -/
theorem rxWords_gap (h : ∀ a ∈ as.head?, p + 32 * n ≤ a.startPtr) : rxWords F n p ⟨as, rec⟩ = ⟨as, rec⟩ := by
  induction n generalizing p with
  | zero => rfl
  | succ n ih =>
    have hone : rxWord F p ⟨as, rec⟩ = ⟨as, rec⟩ := by
      cases as with
      | nil => rfl
      | cons a as =>
        have hle := h a rfl
        rw [rxWord]
        dsimp only
        rw [if_neg (by omega)]
    rw [rxWords, hone]
    exact ih fun a ha => by have hle := h a ha; omega

theorem rxWord_cons (F : Flit) (hstart : a.startPtr ≤ p) (as : List Assembler) (rec : List (List (BitVec 8))) :
    rxWord F p ⟨a :: as, rec⟩ = if a.endPtr = some p then ⟨as, rec ++ [a.data ++ [F (p / 8), F (p / 8 + 1), F (p / 8 + 2), F (p / 8 + 3)]]⟩
      else ⟨{ a with data := a.data ++ [F (p / 8), F (p / 8 + 1), F (p / 8 + 2), F (p / 8 + 3)] } :: as, rec⟩ := by
  rw [rxWord]
  dsimp only
  rw [if_pos hstart, pushBack_flitWord]

/-- Up to the end, or to that of the flit, words are collected. -/
theorem rxWords_part (hp : 32 ∣ p) (hstart : a.startPtr ≤ p) (hend : ∀ i < n, a.endPtr ≠ some (p + 32 * i)) :
    rxWords F n p ⟨a :: as, rec⟩ = ⟨{ a with data := a.data ++ bytesAt F p n } :: as, rec⟩ := by
  induction n generalizing a p with
  | zero => simp [rxWords, bytesAt]
  | succ n ih =>
    have hrest := ih (a := { a with data := a.data ++ [F (p / 8), F (p / 8 + 1), F (p / 8 + 2), F (p / 8 + 3)] }) (Nat.dvd_add hp (Nat.dvd_refl 32))
      (hstart.trans (Nat.le_add_right p 32)) fun i hi h => hend (i + 1) (Nat.succ_lt_succ hi) (h.trans (congrArg some (by omega)))
    have hno : a.endPtr ≠ some p := hend 0 (Nat.succ_pos n)
    rw [rxWords, rxWord_cons F hstart, if_neg hno, hrest, bytesAt_succ F hp, List.append_assoc]

/-- The word at the end is the last that is collected. -/
theorem rxWords_end (hp : 32 ∣ p) (hstart : a.startPtr ≤ p) (hend : a.endPtr = some (p + 32 * n)) :
    rxWords F (n + 1) p ⟨a :: as, rec⟩ = ⟨as, rec ++ [a.data ++ bytesAt F p (n + 1)]⟩ := by
  have hlast : bytesAt F p (n + 1) = bytesAt F p n ++ bytesAt F (p + 32 * n) 1 := by
    rw [bytesAt, Nat.mul_add, List.range_add, List.map_append, List.map_map, bytesAt, bytesAt]
    congr 1
    refine List.map_congr_left fun i _ => congrArg F ?_
    show p / 8 + (4 * n + i) = _
    omega
  have hpart : ∀ i < n, a.endPtr ≠ some (p + 32 * i) := fun i hi h => by
    have heq := Option.some.inj (hend.symm.trans h)
    omega
  rw [rxWords_add, rxWords_part hp hstart hpart, rxWords, rxWord_cons F (by exact hstart.trans (Nat.le_add_right _ _)), if_pos hend, rxWords, hlast,
    List.append_assoc]
  rfl

end Words

/-! ### Flits that are filled -/

/-- The assembler of a start. -/
def started (p : BitVec 32) : Assembler := { startPtr := p.toNat * 128 }

section Ends

variable {as bs E : List Assembler} {es : List (BitVec 32)} {a : Assembler}

/-- Assemblers behind those that get an end get none. -/
theorem assignEnds_append (h : assignEnds as es = some E) (bs : List Assembler) : assignEnds (as ++ bs) es = some (E ++ bs) := by
  induction es generalizing as E with
  | nil =>
    have hE : E = as := by cases as <;> exact (Option.some.inj h).symm
    subst hE
    cases E ++ bs <;> rfl
  | cons e es ih =>
    cases as with
    | nil => cases h
    | cons a as =>
      obtain ⟨E', hE', rfl⟩ := Option.map_eq_some_iff.1 h
      rw [List.cons_append, assignEnds, ih hE']
      rfl

/-- The next end is for the next assembler. -/
theorem assignEnds_concat (h : assignEnds as es = some E) (hlen : as.length = es.length) (a : Assembler) (e : BitVec 32) :
    assignEnds (as ++ [a]) (es ++ [e]) = some (E ++ [{ a with endPtr := some (e.toNat * 32) }]) := by
  induction es generalizing as E with
  | nil =>
    obtain rfl := List.eq_nil_of_length_eq_zero hlen
    obtain rfl := Option.some.inj h
    rfl
  | cons e' es ih =>
    cases as with
    | nil => cases h
    | cons a' as =>
      obtain ⟨E', hE', rfl⟩ := Option.map_eq_some_iff.1 h
      rw [List.cons_append, List.cons_append, assignEnds, ih hE' (Nat.succ.inj hlen)]
      rfl

end Ends

/-- What is below a position of a flit is received: of the assemblers those that have an end by now, whatever comes behind. -/
def Scanned (flit : Flit) (pos : ℕ) (E : List Assembler) (fin : List (List (BitVec 8))) : Prop :=
  ∀ (F : Flit) (more : List Assembler) (rec : List (List (BitVec 8))), (∀ j < pos / 8, F j = flit j) → (∀ a ∈ more.head?, pos ≤ a.startPtr) →
    rxWords F (pos / 32) 0 ⟨E ++ more, rec⟩ = ⟨more, rec ++ fin⟩

section Scanned

variable {flit flit' : Flit} {pos pos' n : ℕ} {E : List Assembler} {fin : List (List (BitVec 8))} {x : Assembler}

theorem scanned_start (flit : Flit) : Scanned flit 0 [] [] := fun _ more rec _ _ => by
  rw [Nat.zero_div, rxWords, List.nil_append, List.append_nil]

/-- There is nothing up to a later position. -/
theorem Scanned.gap (h : Scanned flit pos E fin) (hpos : 32 ∣ pos) (hpos' : 32 ∣ pos') (hle : pos ≤ pos') (hflit : ∀ j < pos / 8, flit' j = flit j) :
    Scanned flit' pos' E fin := by
  intro F more rec hF hmore
  have hsplit : pos' / 32 = pos / 32 + (pos' - pos) / 32 := by omega
  have hfirst := h F more rec (fun j hj => (hF j (by omega)).trans (hflit j hj)) fun a ha => hle.trans (hmore a ha)
  rw [hsplit, rxWords_add, hfirst, rxWords_gap fun a ha => ?_]
  have hstart := hmore a ha
  omega

theorem Scanned.ended (h : Scanned flit pos E fin) (hpos : 32 ∣ pos) (hx : x.startPtr = pos) (hend : x.endPtr = some (pos + 32 * n)) :
    Scanned flit (pos + 32 * (n + 1)) (E ++ [x]) (fin ++ [x.data ++ bytesAt flit pos (n + 1)]) := by
  intro F more rec hF hmore
  have hsplit : (pos + 32 * (n + 1)) / 32 = pos / 32 + (n + 1) := by omega
  have hfirst := h F (x :: more) rec (fun j hj => hF j (by omega)) fun a ha => by
    obtain rfl := Option.some.inj ha
    exact hx.ge
  have hbytes : bytesAt F pos (n + 1) = bytesAt flit pos (n + 1) := by
    refine List.map_congr_left fun i hi => hF _ ?_
    have hlt := List.mem_range.1 hi
    omega
  rw [hsplit, rxWords_add, List.append_assoc, List.singleton_append, hfirst, show 0 + 32 * (pos / 32) = pos by omega,
    rxWords_end hpos hx.le hend, hbytes, List.append_assoc]

/-- A TLP without an end is received up to the end of the flit. -/
theorem Scanned.opened (h : Scanned flit pos E fin) (hpos : 32 ∣ pos) (hx : x.startPtr = pos) (hend : x.endPtr = none) (rec : List (List (BitVec 8))) :
    rxWords flit ((pos + 32 * n) / 32) 0 ⟨E ++ [x], rec⟩ = ⟨[{ x with data := x.data ++ bytesAt flit pos n }], rec ++ fin⟩ := by
  have hsplit : (pos + 32 * n) / 32 = pos / 32 + n := by omega
  have hfirst := h flit [x] rec (fun _ _ => rfl) fun a ha => by
    obtain rfl := Option.some.inj ha
    exact hx.ge
  rw [hsplit, rxWords_add, hfirst, show 0 + 32 * (pos / 32) = pos by omega,
    rxWords_part hpos hx.le fun i _ => by rw [hend]; nofun]

end Scanned

/-! ### One TLP -/

theorem two_pow_width (cfg : Config) : 2 ^ cfg.startPtrWidth = cfg.flitWidth / 128 ∧ 2 ^ cfg.endPtrWidth = cfg.flitWidth / 32 := by
  unfold Config.startPtrWidth Config.endPtrWidth
  rcases cfg.width with h | h | h <;> rw [h] <;> decide

section Put

variable {s s' : Filling} {as E : List Assembler} {fin : List (List (BitVec 8))} {x : Assembler}

theorem bytes_of_filled (h : Filling.Filled cfg s s') (h4 : 4 ∣ s.room cfg) :
    bytesAt s'.flit s.flitPos (s.room cfg / 4) = (s.tlp.tlp.drop s.tlp.pos).take (s.room cfg) := by
  have hle : s.room cfg ≤ s.tlp.tlp.length - s.tlp.pos := Nat.min_le_right _ _
  have hfour : 4 * (s.room cfg / 4) = s.room cfg := Nat.mul_div_cancel' h4
  refine List.ext_getElem ?_ fun i hi hi' => ?_
  · rw [bytesAt, List.length_map, List.length_range, hfour, List.length_take, List.length_drop, Nat.min_eq_left hle]
  · have hlt : i < s.room cfg := by rwa [bytesAt, List.length_map, List.length_range, hfour] at hi
    rw [List.getElem_take, List.getElem_drop]
    simp only [bytesAt, List.getElem_map, List.getElem_range]
    rw [h.flit, if_pos (by omega), Nat.add_sub_cancel_left, List.getD_eq_getElem?_getD, List.getElem?_eq_getElem (by omega), Option.getD_some]

theorem room_dvd (h32 : 32 ∣ s.flitPos) (h4 : 4 ∣ s.tlp.pos) : 4 ∣ s.room cfg := by
  have hW := Filling.dvd_flitWidth cfg
  have hlen := s.tlp.words
  rw [Filling.room]
  omega

/-- **A TLP that is written to its end** is received, by the assembler that waits for it. -/
theorem put_end (h : Filling.Filled cfg s s') (h32 : 32 ∣ s.flitPos) (hle : s.flitPos ≤ cfg.flitWidth) (h4 : 4 ∣ s.tlp.pos) (hnot : ¬ s.tlp.Done)
    (hall : s.room cfg = s.tlp.tlp.length - s.tlp.pos) (hscan : Scanned s'.flit s.flitPos E fin)
    (hE : assignEnds as s.cntl.endPtrs = some E) (hlen : as.length = s.cntl.endPtrs.length)
    (hx : x.startPtr = s.flitPos) (hdata : x.data = s.tlp.tlp.take s.tlp.pos) :
    ∃ e, e.toNat < 2 ^ cfg.endPtrWidth ∧ s'.cntl.endPtrs = s.cntl.endPtrs ++ [e] ∧ s'.tlp.Done ∧ 32 ∣ s'.flitPos ∧ s'.flitPos ≤ cfg.flitWidth ∧
      assignEnds (as ++ [x]) s'.cntl.endPtrs = some (E ++ [{ x with endPtr := some (e.toNat * 32) }]) ∧
      Scanned s'.flit s'.flitPos (E ++ [{ x with endPtr := some (e.toNat * 32) }]) (fin ++ [s.tlp.tlp]) := by
  have hlt := TLP.lt_of_not_done hnot
  have hwords := s.tlp.words
  have hW := Filling.dvd_flitWidth cfg
  have hroom : s.room cfg ≤ (cfg.flitWidth - s.flitPos) / 8 := Nat.min_le_left _ _
  obtain ⟨n, hn⟩ : ∃ n, s.room cfg = 4 * (n + 1) := ⟨s.room cfg / 4 - 1, by omega⟩
  have hend : s'.cntl.endPtrs = s.cntl.endPtrs ++ [BitVec.ofNat 32 ((s.flitPos + 32 * n) / 32)] := by
    rw [h.ends, if_pos (by omega), show s.flitPos + 8 * (s.tlp.tlp.length - 4 - s.tlp.pos) = s.flitPos + 32 * n by omega]
  have hbound : (s.flitPos + 32 * n) / 32 < 2 ^ cfg.endPtrWidth := by
    rw [(two_pow_width cfg).2]
    omega
  have hsmall : 2 ^ cfg.endPtrWidth < 2 ^ 32 := Nat.pow_lt_pow_right (by decide) (CXSCntl.width_lt cfg).2
  have hval : (BitVec.ofNat 32 ((s.flitPos + 32 * n) / 32)).toNat = (s.flitPos + 32 * n) / 32 := by
    rw [BitVec.toNat_ofNat, Nat.mod_eq_of_lt (hbound.trans hsmall)]
  have hpos : s'.flitPos = s.flitPos + 32 * (n + 1) := by
    rw [h.flitPos, hn]
    omega
  refine ⟨_, hval.symm ▸ hbound, hend, ?_, by omega, by omega, ?_, ?_⟩
  · rw [TLP.Done, h.pos, h.tlp]
    omega
  · rw [hend]
    exact assignEnds_concat hE hlen x _
  · have hbytes := bytes_of_filled h (room_dvd h32 h4)
    have hended := hscan.ended (x := { x with endPtr := some ((BitVec.ofNat 32 ((s.flitPos + 32 * n) / 32)).toNat * 32) }) (n := n) h32 hx
      (by rw [hval]; exact congrArg some (by omega))
    rw [show s.room cfg / 4 = n + 1 by omega, hall, List.take_of_length_le (by rw [List.length_drop])] at hbytes
    rw [hpos]
    have hwhole : x.data ++ bytesAt s'.flit s.flitPos (n + 1) = s.tlp.tlp := by rw [hbytes, hdata, List.take_append_drop]
    dsimp only at hended
    rwa [hwhole] at hended

/-- **A TLP that fills the flit** is collected as far as it got. -/
theorem put_part (h : Filling.Filled cfg s s') (h32 : 32 ∣ s.flitPos) (hle : s.flitPos ≤ cfg.flitWidth) (h4 : 4 ∣ s.tlp.pos)
    (hpart : s.room cfg < s.tlp.tlp.length - s.tlp.pos) (hscan : Scanned s'.flit s.flitPos E fin)
    (hx : x.startPtr = s.flitPos) (hxend : x.endPtr = none) (hdata : x.data = s.tlp.tlp.take s.tlp.pos) :
    s'.cntl.endPtrs = s.cntl.endPtrs ∧ ¬ s'.tlp.Done ∧ 4 ∣ s'.tlp.pos ∧ s'.flitPos = cfg.flitWidth ∧
      ∀ rec, rxWords s'.flit (cfg.flitWidth / 32) 0 ⟨E ++ [x], rec⟩ = ⟨[{ x with data := s.tlp.tlp.take s'.tlp.pos }], rec ++ fin⟩ := by
  have hwords := s.tlp.words
  have hW := Filling.dvd_flitWidth cfg
  have hdvd : 4 ∣ s.room cfg := room_dvd h32 h4
  have hroom : s.room cfg = (cfg.flitWidth - s.flitPos) / 8 := by
    rw [Filling.room] at hpart ⊢
    omega
  have hpos : s'.flitPos = cfg.flitWidth := by
    rw [h.flitPos]
    omega
  refine ⟨?_, ?_, ?_, hpos, fun rec => ?_⟩
  · rw [h.ends, if_neg (by omega), List.append_nil]
  · rw [TLP.Done, h.pos, h.tlp]
    omega
  · rw [h.pos]
    exact Nat.dvd_add h4 hdvd
  · have hbytes := bytes_of_filled h hdvd
    have hopened := hscan.opened (n := s.room cfg / 4) h32 hx hxend rec
    rw [show s.flitPos + 32 * (s.room cfg / 4) = cfg.flitWidth by omega, hbytes, hdata, ← List.take_add, ← h.pos] at hopened
    exact hopened

end Put

/-! ### One flit -/

/-- The assembler that is left over from the flit before. -/
def pending : List TLP → List Assembler
  | [] => []
  | t :: _ => if t.pos = 0 then [] else [{ startPtr := 0, data := t.tlp.take t.pos }]

/-- What is packed of a flit is received by assemblers with their ends, `E`. -/
structure Packing (cfg : Config) (old : List Assembler) (d : List (List (BitVec 8))) (p : Packer) (E : List Assembler) (fin : List (List (BitVec 8))) :
    Prop where
  valid : p.cntl.Valid cfg
  assigned : assignEnds (old ++ p.cntl.startPtrs.map started) p.cntl.endPtrs = some E
  done : p.done = d ++ fin

/-- No TLP is begun and not done. -/
structure Closed (cfg : Config) (old : List Assembler) (d : List (List (BitVec 8))) (p : Packer) (E : List Assembler) (fin : List (List (BitVec 8))) :
    Prop extends Packing cfg old d p E fin where
  fresh : ∀ t ∈ p.queue, t.pos = 0
  dvd : 32 ∣ p.flitPos
  le : p.flitPos ≤ cfg.flitWidth
  count : (old ++ p.cntl.startPtrs.map started).length = p.cntl.endPtrs.length
  scanned : Scanned p.flit p.flitPos E fin

/-- The first TLP is begun and fills the flit. -/
structure Open (cfg : Config) (old : List Assembler) (d : List (List (BitVec 8))) (p : Packer) (E : List Assembler) (fin : List (List (BitVec 8)))
    (t : TLP) (q : List TLP) : Prop extends Packing cfg old d p E fin where
  queue : p.queue = t :: q
  fresh : ∀ t ∈ q, t.pos = 0
  begun : t.pos ≠ 0
  open_ : ¬ t.Done
  dvd : 4 ∣ t.pos
  flitPos : p.flitPos = cfg.flitWidth
  received : ∀ rec, ∃ a, rxWords p.flit (cfg.flitWidth / 32) 0 ⟨E, rec⟩ =
    ⟨[{ startPtr := a, data := t.tlp.take t.pos }], rec ++ fin⟩

/-- A flit on which nothing is put yet, where a TLP goes on. -/
structure Continued (old : List Assembler) (d : List (List (BitVec 8))) (p : Packer) (t : TLP) (q : List TLP) : Prop where
  queue : p.queue = t :: q
  fresh : ∀ t ∈ q, t.pos = 0
  begun : t.pos ≠ 0
  open_ : ¬ t.Done
  dvd : 4 ∣ t.pos
  old : old = [{ startPtr := 0, data := t.tlp.take t.pos }]
  flitPos : p.flitPos = 0
  cntl : p.cntl = {}
  done : p.done = d

/-- A flit that is filled is in one of these states. -/
def Filled (cfg : Config) (old : List Assembler) (d : List (List (BitVec 8))) (p : Packer) : Prop :=
  (∃ E fin, Closed cfg old d p E fin) ∨ (∃ E fin t q, Open cfg old d p E fin t q) ∨ ∃ t q, Continued old d p t q

section Flits

variable {old E : List Assembler} {d fin : List (List (BitVec 8))} {p p' : Packer} {t : TLP} {q : List TLP} {n : ℕ}

theorem cntl_ext {c c' : CXSCntl} (h₁ : c.startPtrs = c'.startPtrs) (h₂ : c.endPtrs = c'.endPtrs) : c = c' := by
  cases c
  cases c'
  cases h₁
  cases h₂
  rfl

theorem create_of_done {f : ℕ} (h : (createFlit cfg t p.flit f p.cntl).tlp.Done) : p.create cfg t q f =
    { flit := (createFlit cfg t p.flit f p.cntl).flit, flitPos := (createFlit cfg t p.flit f p.cntl).flitPos,
      cntl := (createFlit cfg t p.flit f p.cntl).cntl, queue := q, done := p.done ++ [t.tlp] } := by
  rw [Packer.create, if_pos h]

theorem create_of_not_done {f : ℕ} (h : ¬ (createFlit cfg t p.flit f p.cntl).tlp.Done) : p.create cfg t q f =
    { flit := (createFlit cfg t p.flit f p.cntl).flit, flitPos := (createFlit cfg t p.flit f p.cntl).flitPos,
      cntl := (createFlit cfg t p.flit f p.cntl).cntl, queue := (createFlit cfg t p.flit f p.cntl).tlp :: q, done := p.done } := by
  rw [Packer.create, if_neg h]

theorem cntl_create (cfg : Config) (p : Packer) (t : TLP) (q : List TLP) (f : ℕ) :
    (p.create cfg t q f).cntl = (createFlit cfg t p.flit f p.cntl).cntl := by
  by_cases h : (createFlit cfg t p.flit f p.cntl).tlp.Done
  · rw [create_of_done h]
  · rw [create_of_not_done h]

/-- A TLP of which something is written, for which the assembler `x` waits behind those that have their ends. -/
theorem filled_of_put {s : Filling} {f : ℕ} {as : List Assembler} {x : Assembler} (hs : Filling.Filled cfg s (createFlit cfg t p.flit f p.cntl))
    (htlp : s.tlp = t) (hcntl : s.cntl = p.cntl) (h32 : 32 ∣ s.flitPos) (hle : s.flitPos ≤ cfg.flitWidth) (h4 : 4 ∣ t.pos) (hnot : ¬ t.Done)
    (hroom : 0 < s.room cfg) (hscan : Scanned (createFlit cfg t p.flit f p.cntl).flit s.flitPos E fin)
    (hE : assignEnds as p.cntl.endPtrs = some E) (hlen : as.length = p.cntl.endPtrs.length)
    (hx : x.startPtr = s.flitPos) (hxend : x.endPtr = none) (hdata : x.data = t.tlp.take t.pos)
    (has : old ++ (createFlit cfg t p.flit f p.cntl).cntl.startPtrs.map started = as ++ [x]) (hdone : p.done = d ++ fin)
    (hfresh : ∀ t ∈ q, t.pos = 0) (hsp : ∀ b ∈ (createFlit cfg t p.flit f p.cntl).cntl.startPtrs, b.toNat < 2 ^ cfg.startPtrWidth)
    (hep : ∀ b ∈ p.cntl.endPtrs, b.toNat < 2 ^ cfg.endPtrWidth)
    (hstarts : (createFlit cfg t p.flit f p.cntl).cntl.startPtrs.length ≤ cfg.maxPktPerFlit)
    (hends : (createFlit cfg t p.flit f p.cntl).cntl.endPtrs.length ≤ cfg.maxPktPerFlit) : Filled cfg old d (p.create cfg t q f) := by
  subst htlp
  rw [← hcntl] at hE hlen hep
  rcases Nat.lt_or_ge (s.room cfg) (s.tlp.tlp.length - s.tlp.pos) with hpart | hall
  · obtain ⟨hsame, hnd, hdvd, hfull, hrx⟩ := put_part hs h32 hle h4 hpart hscan hx hxend hdata
    rw [create_of_not_done hnd]
    refine .inr (.inl ⟨E ++ [x], fin, _, q, ⟨⟨hstarts, hends, hsp, by rw [hsame]; exact hep⟩, ?_, hdone⟩, rfl, hfresh, ?_, hnd, hdvd, hfull, fun rec => ?_⟩)
    · rw [has, hsame]
      exact assignEnds_append hE [x]
    · rw [hs.pos]
      omega
    · have hone := hrx rec
      rw [hxend] at hone
      exact ⟨x.startPtr, by rw [hs.tlp]; exact hone⟩
  · obtain ⟨e, he, hsame, hd, hdvd, hle', hassigned, hscanned⟩ := put_end hs h32 hle h4 hnot
      (Nat.le_antisymm (Nat.min_le_right _ _) hall) hscan hE hlen hx hdata
    rw [create_of_done hd]
    refine .inl ⟨_, fin ++ [s.tlp.tlp], ⟨⟨hstarts, hends, hsp, ?_⟩, ?_, ?_⟩, hfresh, hdvd, hle', ?_, hscanned⟩
    · rw [hsame]
      intro b hb
      rcases List.mem_append.1 hb with hb | hb
      · exact hep b hb
      · exact List.mem_singleton.1 hb ▸ he
    · rw [has]
      exact hassigned
    · rw [hdone, List.append_assoc]
    · rw [has, hsame, List.length_append, List.length_append, hlen]
      rfl

theorem Closed.create (h : Closed cfg old d p E fin) (hq : p.queue = t :: q) (hn : p.flitPos ≤ 8 * n) (hlt : 8 * n < cfg.flitWidth)
    (hstarts : (p.create cfg t q (8 * n)).cntl.startPtrs.length ≤ cfg.maxPktPerFlit)
    (hends : (p.create cfg t q (8 * n)).cntl.endPtrs.length ≤ cfg.maxPktPerFlit) : Filled cfg old d (p.create cfg t q (8 * n)) := by
  have ht : t.pos = 0 := h.fresh t (by rw [hq]; exact List.mem_cons_self)
  have hfresh : ∀ t ∈ q, t.pos = 0 := fun t' ht' => h.fresh t' (by rw [hq]; exact List.mem_cons_of_mem t ht')
  have hnot : ¬ t.Done := fun hd => absurd t.nonempty (by rw [← show t.pos = t.tlp.length from hd, ht]; decide)
  have hW := Filling.dvd_flitWidth cfg
  obtain ⟨s, hs, hpos, htlp, hcntl, hflit⟩ := createFlit_spec t p.flit p.cntl (Dvd.intro n rfl) hlt.le
  rw [if_pos ht] at hpos
  unfold Filling.aligned at hpos
  rw [cntl_create] at hstarts hends
  have h32 : 32 ∣ s.flitPos := by omega
  have hle : s.flitPos ≤ cfg.flitWidth := by omega
  have hscan : Scanned (createFlit cfg t p.flit (8 * n) p.cntl).flit s.flitPos E fin :=
    h.scanned.gap h.dvd h32 (by omega) fun j hj => by rw [hs.flit, if_neg (by omega), hflit j (by omega)]
  rcases Nat.eq_zero_or_pos (s.room cfg) with hzero | hroom
  · -- the flit ends before a place where the TLP could start
    have hstart : (createFlit cfg t p.flit (8 * n) p.cntl).cntl = p.cntl := by
      have h₁ := hs.starts
      have h₂ := hs.ends
      rw [if_neg (by omega), List.append_nil, hcntl] at h₁
      rw [if_neg (by omega), List.append_nil, hcntl] at h₂
      exact cntl_ext h₁ h₂
    have hpos' : (createFlit cfg t p.flit (8 * n) p.cntl).tlp.pos = 0 := by rw [hs.pos, htlp, ht, hzero]
    have hnd : ¬ (createFlit cfg t p.flit (8 * n) p.cntl).tlp.Done := fun hd => by
      have hlen : (createFlit cfg t p.flit (8 * n) p.cntl).tlp.pos = _ := hd
      rw [hpos', hs.tlp, htlp] at hlen
      have hne := t.nonempty
      omega
    have hend : (createFlit cfg t p.flit (8 * n) p.cntl).flitPos = s.flitPos := by rw [hs.flitPos, hzero]; rfl
    rw [create_of_not_done hnd]
    refine .inl ⟨E, fin, ⟨by rw [hstart]; exact h.valid, by rw [hstart]; exact h.assigned, h.done⟩, ?_, hend ▸ h32, hend ▸ hle,
      by rw [hstart]; exact h.count, hend ▸ hscan⟩
    intro t' ht'
    rcases List.mem_cons.1 ht' with rfl | ht'
    · exact hpos'
    · exact hfresh t' ht'
  · have hlt' : s.flitPos < cfg.flitWidth := by
      rw [Filling.room] at hroom
      omega
    have hbound : s.flitPos / 128 < 2 ^ cfg.startPtrWidth := by
      rw [(two_pow_width cfg).1]
      omega
    have hsmall : 2 ^ cfg.startPtrWidth < 2 ^ 32 := Nat.pow_lt_pow_right (by decide) (CXSCntl.width_lt cfg).1
    have hval : (BitVec.ofNat 32 (s.flitPos / 128)).toNat = s.flitPos / 128 := by rw [BitVec.toNat_ofNat, Nat.mod_eq_of_lt (hbound.trans hsmall)]
    have hsp : (createFlit cfg t p.flit (8 * n) p.cntl).cntl.startPtrs = p.cntl.startPtrs ++ [BitVec.ofNat 32 (s.flitPos / 128)] := by
      rw [hs.starts, if_pos ⟨by rw [htlp, ht], hroom⟩, hcntl]
    refine filled_of_put (x := started (BitVec.ofNat 32 (s.flitPos / 128))) hs htlp hcntl h32 hle (by rw [ht]; exact Nat.dvd_zero 4) hnot hroom hscan h.assigned h.count ?_ rfl
      (by rw [ht]; rfl) ?_ h.done hfresh ?_ h.valid.endPtr hstarts hends
    · rw [started, hval]
      dsimp only
      omega
    · rw [hsp, List.map_append, List.append_assoc]
      rfl
    · rw [hsp]
      intro b hb
      rcases List.mem_append.1 hb with hb | hb
      · exact h.valid.startPtr b hb
      · rw [List.mem_singleton.1 hb, hval]
        exact hbound

/-- A TLP that was begun in the flit before goes on. -/
theorem Continued.create (h : Continued old d p t q)
    (hstarts : (p.create cfg t q 0).cntl.startPtrs.length ≤ cfg.maxPktPerFlit)
    (hends : (p.create cfg t q 0).cntl.endPtrs.length ≤ cfg.maxPktPerFlit) : Filled cfg old d (p.create cfg t q 0) := by
  have hW := Filling.dvd_flitWidth cfg
  have hpos : 0 < cfg.flitWidth := by rcases cfg.width with h | h | h <;> omega
  have hlt := TLP.lt_of_not_done h.open_
  obtain ⟨s, hs, hzero, htlp, hcntl, -⟩ := createFlit_spec t p.flit p.cntl (Nat.dvd_zero 8) (Nat.zero_le cfg.flitWidth)
  rw [if_neg h.begun] at hzero
  rw [cntl_create] at hstarts hends
  have hsp : (createFlit cfg t p.flit 0 p.cntl).cntl.startPtrs = [] := by
    rw [hs.starts, if_neg fun hc => h.begun (htlp ▸ hc.1), hcntl, h.cntl]
    rfl
  have hscan : Scanned (createFlit cfg t p.flit 0 p.cntl).flit s.flitPos [] [] := by
    rw [hzero]
    exact scanned_start _
  have hE : assignEnds [] p.cntl.endPtrs = some [] := by
    rw [h.cntl]
    rfl
  refine filled_of_put (x := { startPtr := 0, data := t.tlp.take t.pos }) hs htlp hcntl (by rw [hzero]; exact Nat.dvd_zero 32) (by omega) h.dvd
    h.open_ ?_ hscan hE (by rw [h.cntl]; rfl) hzero.symm rfl rfl ?_ (by rw [h.done, List.append_nil]) h.fresh ?_ ?_ hstarts hends
  · rw [Filling.room, htlp, hzero]
    omega
  · rw [hsp, h.old]
    rfl
  · rw [hsp]
    exact fun b hb => nomatch hb
  · rw [h.cntl]
    exact fun b hb => nomatch hb

/-- **One call of `CreateFlit`.** -/
theorem Filled.step (h : Filled cfg old d p) (hs : Fills cfg p p') : Filled cfg old d p' := by
  obtain ⟨n, hq, hn, hlt, hbegun, hstarts, hends⟩ := hs
  rcases h with ⟨E, fin, h⟩ | ⟨E, fin, t', q', h⟩ | ⟨t', q', h⟩
  · exact h.create hq hn hlt hstarts hends
  · have hle := h.flitPos
    omega
  · obtain ⟨rfl, rfl⟩ := List.cons.inj (hq.symm.trans h.queue)
    obtain rfl := hbegun h.begun
    exact h.create hstarts hends

theorem Filled.run (h : Filled cfg old d p) (hs : ReflTransGen (Fills cfg) p p') : Filled cfg old d p' := by
  induction hs with
  | refl => exact h
  | tail _ hstep ih => exact ih.step hstep

/-- No more of the TLPs than the first is begun. -/
structure Queue (q : List TLP) : Prop where
  fresh : ∀ t ∈ q.tail, t.pos = 0
  head : ∀ t ∈ q.head?, t.pos ≠ 0 → 4 ∣ t.pos ∧ ¬ t.Done

theorem filled_start (hq : Queue q) (f : Flit) (d : List (List (BitVec 8))) :
    Filled cfg (pending q) d { flit := f, queue := q, done := d } := by
  have hclosed : (∀ t ∈ q, t.pos = 0) → pending q = [] → Filled cfg (pending q) d { flit := f, queue := q, done := d } := fun hf hp =>
    .inl ⟨[], [], ⟨⟨Nat.zero_le _, Nat.zero_le _, nofun, nofun⟩, by rw [hp]; rfl, (List.append_nil d).symm⟩, hf, Nat.dvd_zero 32,
      Nat.zero_le _, by rw [hp]; rfl, scanned_start f⟩
  cases q with
  | nil => exact hclosed nofun rfl
  | cons t q =>
    by_cases ht : t.pos = 0
    · refine hclosed (fun t' ht' => ?_) (if_pos ht)
      rcases List.mem_cons.1 ht' with rfl | ht'
      · exact ht
      · exact hq.fresh t' ht'
    · obtain ⟨h4, hnot⟩ := hq.head t rfl ht
      exact .inr (.inr ⟨t, q, rfl, hq.fresh, ht, hnot, h4, if_neg ht, rfl, rfl, rfl⟩)

/-- **A flit that was filled is received**: the TLPs that it ends, and what it holds of the next. -/
theorem Filled.received (h : Filled cfg old d p) (hsend : ∀ t ∈ p.queue.head?, t.pos ≠ 0 → cfg.flitWidth ≤ p.flitPos) :
    Queue p.queue ∧ p.cntl.Valid cfg ∧ ∃ E fin, processRxCntl p.cntl old = some E ∧ p.done = d ++ fin ∧
      ∀ rec, processRxData cfg p.flit ⟨E, rec⟩ = some ⟨pending p.queue, rec ++ fin⟩ := by
  have hpos : 0 < cfg.flitWidth := by rcases cfg.width with h | h | h <;> omega
  have hW := Filling.dvd_flitWidth cfg
  rcases h with ⟨E, fin, h⟩ | ⟨E, fin, t, q, h⟩ | ⟨t, q, h⟩
  · have hhead : ∀ t ∈ p.queue.head?, t.pos = 0 := fun t ht => h.fresh t (List.mem_of_mem_head? ht)
    have hnone : pending p.queue = [] := by
      cases hq : p.queue with
      | nil => rfl
      | cons t q => exact if_pos (hhead t (by rw [hq]; rfl))
    refine ⟨⟨fun t ht => h.fresh t (List.mem_of_mem_tail ht), fun t ht hne => absurd (hhead t ht) hne⟩, h.valid, E, fin, h.assigned, h.done,
      fun rec => ?_⟩
    have hall := h.scanned.gap h.dvd (show 32 ∣ cfg.flitWidth by omega) h.le (fun _ _ => rfl) p.flit [] rec (fun _ _ => rfl) nofun
    rw [List.append_nil] at hall
    rw [processRxData, hall, hnone]
  · refine ⟨⟨by rw [h.queue]; exact h.fresh, fun t' ht' _ => ?_⟩, h.valid, E, fin, h.assigned, h.done, fun rec => ?_⟩
    · rw [h.queue] at ht'
      obtain rfl := Option.some.inj ht'
      exact ⟨h.dvd, h.open_⟩
    · obtain ⟨a, hall⟩ := h.received rec
      rw [processRxData, hall, h.queue, pending, if_neg h.begun]
  · have hfull := hsend t (by rw [h.queue]; rfl) h.begun
    rw [h.flitPos] at hfull
    omega

end Flits

/-! ### All flits -/

section Runs

variable {ts q : List TLP} {fs : List (Flit × CXSCntl)} {d : List (List (BitVec 8))} {p p' : Packer}

theorem kept_of_fills (h : Fills cfg p p') : p'.done ++ p'.queue.map TLP.tlp = p.done ++ p.queue.map TLP.tlp := by
  obtain @⟨t, q, n, hq, hn, hlt, -⟩ := h
  obtain ⟨s, hs, -, htlp, -⟩ := createFlit_spec t p.flit p.cntl (Dvd.intro n rfl) hlt.le
  by_cases hd : (createFlit cfg t p.flit (8 * n) p.cntl).tlp.Done
  · rw [create_of_done hd, hq, List.map_cons, List.append_assoc]
    rfl
  · rw [create_of_not_done hd, hq, List.map_cons, List.map_cons, hs.tlp, htlp]

theorem kept_of_run (h : ReflTransGen (Fills cfg) p p') : p'.done ++ p'.queue.map TLP.tlp = p.done ++ p.queue.map TLP.tlp := by
  induction h with
  | refl => rfl
  | tail _ hstep ih => exact (kept_of_fills hstep).trans ih

theorem Packed.kept (h : Packed cfg ts fs q d) : d ++ q.map TLP.tlp = ts.map TLP.tlp := by
  induction h with
  | nil _ => rfl
  | flit _ hrun _ ih => exact (kept_of_run hrun).trans ih

theorem Packed.queue (h : Packed cfg ts fs q d) : Queue q := by
  induction h with
  | nil h => exact ⟨fun t ht => h t (List.mem_of_mem_tail ht), fun t ht hne => absurd (h t (List.mem_of_mem_head? ht)) hne⟩
  | flit _ hrun hsend ih => exact (((filled_start ih _ _).run hrun).received hsend).1

/-- The pointers of every flit are as many as there may be, and of their widths. -/
theorem Packed.valid (h : Packed cfg ts fs q d) : ∀ f ∈ fs, f.2.Valid cfg := by
  induction h with
  | nil _ => nofun
  | flit hp hrun hsend ih =>
    intro f hf
    rcases List.mem_append.1 hf with hf | hf
    · exact ih f hf
    · obtain rfl := List.mem_singleton.1 hf
      exact (((filled_start hp.queue _ _).run hrun).received hsend).2.1

/-- The pointers of a flit get to the receiver, if they fit. -/
theorem receive_of_fits {rx : Rx} {f : Flit} {c : CXSCntl} (hc : c.Valid cfg) (hf : c.Fits cfg) :
    (onLink cfg (f, c)).bind (receive cfg rx) = (processRxCntl c rx.assemblers).bind fun as => processRxData cfg f { rx with assemblers := as } := by
  obtain ⟨v, hv⟩ := hf.toUint64
  have hparse : CXSCntl.parseCntl cfg ((v.setWidth cfg.cntlWidth).setWidth 64) = some c := hf.parse hc hv fun j hj => by
    rw [BitVec.getLsbD_setWidth, BitVec.getLsbD_setWidth]
    by_cases hj' : j < 64
    · simp [hj, hj']
    · simp [hj', BitVec.getLsbD_of_ge v j (Nat.not_lt.1 hj')]
  rw [onLink, hv]
  show receive cfg rx (f, v.setWidth cfg.cntlWidth) = _
  rw [receive, hparse]
  rfl

/-- **What was packed is received**, as long as the pointers of every flit fit. -/
theorem Packed.decoded (h : Packed cfg ts fs q d) (hf : ∀ f ∈ fs, f.2.Fits cfg) : decode cfg fs = some ⟨pending q, d⟩ := by
  induction h with
  | @nil h =>
    have hnone : pending ts = [] := by
      cases ts with
      | nil => rfl
      | cons t q => exact if_pos (h t List.mem_cons_self)
    rw [decode, hnone]
    rfl
  | @flit fs q d f p hp hrun hsend ih =>
    obtain ⟨-, hvalid, E, fin, hE, hdone, hrx⟩ := ((filled_start hp.queue _ _).run hrun).received hsend
    have hprev := ih fun f hmem => hf f (List.mem_append_left _ hmem)
    rw [decode] at hprev ⊢
    rw [List.foldlM_append, hprev]
    show ((onLink cfg (p.flit, p.cntl)).bind (receive cfg ⟨pending q, d⟩)).bind some = _
    rw [receive_of_fits hvalid (hf _ (List.mem_append_right _ List.mem_cons_self)), hE, Option.bind_some, hrx, hdone]
    rfl

/-- **TLPs are reassembled.** A control word brings the pointers of its flit exactly if they fit in it; and as long as all do, the TLPs
that were packed to their ends are received in order, byte for byte. -/
theorem reassembled_of_packed (h : Packed cfg ts fs q d) :
    (∀ f ∈ fs, (f.2.toUint64 cfg).bind (CXSCntl.parseCntl cfg) = some f.2 ↔ f.2.Fits cfg) ∧
      ((∀ f ∈ fs, f.2.Fits cfg) → ∃ rx, decode cfg fs = some rx ∧ rx.received ++ q.map TLP.tlp = ts.map TLP.tlp) :=
  ⟨fun f hf => CXSCntl.parse_toUint64_iff (h.valid f hf), fun hf => ⟨_, h.decoded hf, h.kept⟩⟩

/-- Two words in a flit of 256 bits. -/
theorem reassembled_of_packed_two_words :
    ∃ p : Packer, ∃ rx, decode ⟨256, 2, .inl rfl⟩ [(p.flit, p.cntl)] = some rx ∧ rx.received ++ p.queue.map TLP.tlp = [[1, 2, 3, 4, 5, 6, 7, 8]] := by
  let t : TLP := ⟨[1, 2, 3, 4, 5, 6, 7, 8], 0, by decide, by decide, by decide⟩
  let p : Packer := { flit := fun _ => 0, queue := [t], done := [] }
  have hrun : ReflTransGen (Fills ⟨256, 2, .inl rfl⟩) p (p.create ⟨256, 2, .inl rfl⟩ t [] 0) :=
    .single (.create 0 rfl (by decide) (by decide) nofun (by decide +kernel) (by decide +kernel))
  have hpacked : Packed ⟨256, 2, .inl rfl⟩ [t] ([] ++ [_]) _ _ :=
    .flit (.nil fun u hu => by rw [List.mem_singleton.1 hu]) hrun (by decide +kernel)
  exact ⟨_, (reassembled_of_packed hpacked).2 fun f hf => (hpacked.valid f hf).fits (by decide)⟩

/-- **TLPs that are not reassembled**: three that end in a flit of 1024 bits. Bit 32 of the third end pointer is lost. -/
theorem not_reassembled_three_ends :
    ∃ (cfg : Config) (ts : List TLP) (p : Packer), Packed cfg ts [(p.flit, p.cntl)] [] (ts.map TLP.tlp) ∧
      (decode cfg [(p.flit, p.cntl)]).map (·.received) ≠ some (ts.map TLP.tlp) := by
  let cfg : Config := ⟨1024, 3, .inr (.inr rfl)⟩
  let t : TLP := ⟨List.replicate 8 0, 0, by decide, by decide, by decide⟩
  let u : TLP := ⟨List.replicate 48 0, 0, by decide, by decide, by decide⟩
  let p₀ : Packer := { flit := fun _ => 0, queue := [t, u, t], done := [] }
  let p₁ := p₀.create cfg t [u, t] 0
  let p₂ := p₁.create cfg u [t] 64
  let p₃ := p₂.create cfg t [] 512
  have h₁ : Fills cfg p₀ p₁ := .create 0 rfl (by decide) (by decide) nofun (by decide +kernel) (by decide +kernel)
  have h₂ : Fills cfg p₁ p₂ := .create 8 rfl (by decide +kernel) (by decide) nofun (by decide +kernel) (by decide +kernel)
  have hlast : p₂.queue = [t] := congrArg Packer.queue (create_of_done (by decide +kernel))
  have h₃ : Fills cfg p₂ p₃ := .create 64 hlast (by decide +kernel) (by decide) nofun (by decide +kernel) (by decide +kernel)
  have hqueue : p₃.queue = [] := congrArg Packer.queue (create_of_done (by decide +kernel))
  have hdone : p₃.done = [t, u, t].map TLP.tlp := by decide +kernel
  have hlost : (decode cfg [(p₃.flit, p₃.cntl)]).map (·.received) ≠ some ([t, u, t].map TLP.tlp) := by decide +kernel
  obtain ⟨p, hrun, hqueue, hdone, hlost⟩ : ∃ p, ReflTransGen (Fills cfg) p₀ p ∧ p.queue = [] ∧ p.done = [t, u, t].map TLP.tlp ∧
      (decode cfg [(p.flit, p.cntl)]).map (·.received) ≠ some ([t, u, t].map TLP.tlp) :=
    ⟨p₃, ((ReflTransGen.single h₁).tail h₂).tail h₃, hqueue, hdone, hlost⟩
  refine ⟨cfg, [t, u, t], p, ?_, hlost⟩
  have hpacked : Packed cfg [t, u, t] ([] ++ [(p.flit, p.cntl)]) p.queue p.done := .flit (.nil (by decide)) hrun (by rw [hqueue]; nofun)
  rw [hqueue, hdone] at hpacked
  exact hpacked

end Runs

end LibSystemCTLM.Ccix.Cxs
