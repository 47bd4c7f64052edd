import LibSystemCTLM.Axi.Tlm2Axi

/-!
# The beats of `tlm2axi_bridge`

The beats of the write data phase start at the places `cut 0 < cut 1 < ...` of the payload
(`prepareWbeat_snd`), so the phase always ends and its beats are known (`emits_iff`). Read as AXI
reads them, they write byte `k` of the payload, with the strobe of byte `placeOf k`, to
`writtenAddr k` (`writes_eq`).
-/

namespace LibSystemCTLM.Tlm2Axi

open Foundation Tlm

variable {cfg : Config}

/-! ### The bytes of a beat -/

namespace Transaction

variable (cfg) (tr : Transaction)

/-- `GetBurstWidth`, of the transaction. -/
abbrev width : ℕ := getBurstWidth cfg tr.genattr

/-- The bytes of a beat that fit on the bus. -/
def laneWidth : ℕ := min (tr.width cfg) cfg.dataBusBytes

/-- The bytes a beat of a fixed burst takes. -/
def step : ℕ := min tr.gp.streamingWidth (tr.laneWidth cfg - tr.gp.address.toNat % tr.laneWidth cfg)

/-- Where beat `n`, counted from zero, starts in the payload. -/
def cut (n : ℕ) : ℕ :=
  if tr.burstType = .fixed then n * tr.step cfg else n * tr.laneWidth cfg - tr.gp.address.toNat % tr.laneWidth cfg

/-- How many beats the loop makes of the payload. -/
def beats : ℕ :=
  if tr.burstType = .fixed then (tr.gp.dataLength + tr.step cfg - 1) / tr.step cfg
  else (tr.gp.dataLength + tr.gp.address.toNat % tr.laneWidth cfg + tr.laneWidth cfg - 1) / tr.laneWidth cfg

/-- `pos` before beat `n`. -/
def start (n : ℕ) : ℕ := min tr.gp.dataLength (tr.cut cfg n)

/-- `addr_pos` before beat `n`. -/
def offset (n : ℕ) : ℕ := if tr.burstType = .fixed then 0 else tr.start cfg n

/-- What the constructor and `Validate` ensure. -/
structure Valid : Prop where
  length_pos : 0 < tr.gp.dataLength
  streaming_pos : 0 < tr.gp.streamingWidth
  width_eq : ∃ i ≤ 7, tr.width cfg = 2 ^ i
  fixed_iff : tr.burstType = .fixed ↔ tr.gp.streamingWidth < tr.gp.dataLength
  fixed_le : tr.burstType = .fixed → tr.gp.streamingWidth ≤ cfg.dataBusBytes
  wrap_iff : tr.burstType = .wrap ↔ tr.gp.streamingWidth = tr.gp.dataLength ∧ tr.genattr.wrap = true
  numBeats_eq : tr.numBeats = setupNumBeats cfg tr.gp tr.genattr tr.burstType

variable {cfg tr}

theorem cut_zero : tr.cut cfg 0 = 0 := by
  simp [cut]

theorem cut_mono : Monotone (tr.cut cfg) := by
  intro m n hmn
  unfold cut
  split
  · exact Nat.mul_le_mul_right _ hmn
  · exact Nat.sub_le_sub_right (Nat.mul_le_mul_right _ hmn) _

theorem bus_dvd (cfg : Config) : cfg.dataBusBytes ∣ 2 ^ 64 := pow_dvd_pow 2 (cfg.busBits_le.trans (by omega))

namespace Valid

variable (h : tr.Valid cfg)
include h

theorem width_pos : 0 < tr.width cfg := by
  obtain ⟨i, _, hw⟩ := h.width_eq
  rw [hw]
  exact Nat.two_pow_pos i

theorem width_le : tr.width cfg ≤ 128 := by
  obtain ⟨i, hi, hw⟩ := h.width_eq
  rw [hw]
  exact Nat.pow_le_pow_right two_pos hi

theorem laneWidth_pos : 0 < tr.laneWidth cfg := lt_min h.width_pos (Nat.two_pow_pos _)

/-- Of two powers of two the smaller divides both. -/
theorem laneWidth_dvd : tr.laneWidth cfg ∣ tr.width cfg ∧ tr.laneWidth cfg ∣ cfg.dataBusBytes := by
  obtain ⟨i, _, hw⟩ := h.width_eq
  rw [laneWidth, hw, Config.dataBusBytes]
  rcases Nat.le_total i cfg.busBits with hle | hle
  · rw [min_eq_left (Nat.pow_le_pow_right two_pos hle)]
    exact ⟨dvd_rfl, pow_dvd_pow 2 hle⟩
  · rw [min_eq_right (Nat.pow_le_pow_right two_pos hle)]
    exact ⟨pow_dvd_pow 2 hle, dvd_rfl⟩

/-- The next beat or the next bus word, whichever comes first, is the next lane block. -/
theorem min_sub_mod (a : ℕ) :
    min (cfg.dataBusBytes - a % cfg.dataBusBytes) (tr.width cfg - a % tr.width cfg) = tr.laneWidth cfg - a % tr.laneWidth cfg := by
  obtain ⟨hdw, hdb⟩ := h.laneWidth_dvd
  have hw := alignDown_add_le_alignDown hdw h.width_pos a
  have hb := alignDown_add_le_alignDown hdb (Nat.two_pow_pos _) a
  have hmodw := alignDown_add_mod a (tr.width cfg)
  have hmodb := alignDown_add_mod a cfg.dataBusBytes
  have hlane : tr.laneWidth cfg = tr.width cfg ∨ tr.laneWidth cfg = cfg.dataBusBytes := min_choice _ _
  rcases hlane with he | he
  · rw [he] at hb ⊢
    omega
  · rw [he] at hw ⊢
    omega

theorem step_pos : 0 < tr.step cfg :=
  lt_min h.streaming_pos (Nat.sub_pos_of_lt (Nat.mod_lt _ h.laneWidth_pos))

/-- A beat starts in the payload exactly when it is one of the `beats`. -/
theorem lt_beats_iff {n : ℕ} : n < tr.beats cfg ↔ tr.cut cfg n < tr.gp.dataLength := by
  unfold beats cut
  split
  · exact lt_ceil_iff h.step_pos
  · rw [lt_ceil_iff h.laneWidth_pos]
    have := h.length_pos
    omega

theorem beats_pos : 0 < tr.beats cfg := h.lt_beats_iff.2 (cut_zero.trans_lt h.length_pos)

theorem length_le_cut : tr.gp.dataLength ≤ tr.cut cfg (tr.beats cfg) := not_lt.1 fun hlt => lt_irrefl _ (h.lt_beats_iff.2 hlt)

theorem start_eq {n : ℕ} (hn : n < tr.beats cfg) : tr.start cfg n = tr.cut cfg n := min_eq_right (h.lt_beats_iff.1 hn).le

theorem offset_lt {n : ℕ} (hn : n < tr.beats cfg) : tr.offset cfg n < tr.gp.streamingWidth := by
  unfold offset
  split
  · exact h.streaming_pos
  · rename_i hfix
    rw [h.start_eq hn]
    exact (h.lt_beats_iff.1 hn).trans_le (not_lt.1 fun hlt => hfix (h.fixed_iff.2 hlt))

theorem and_width (a : ℕ) : a &&& (tr.width cfg - 1) = a % tr.width cfg := by
  obtain ⟨i, _, hw⟩ := h.width_eq
  rw [hw, Nat.and_two_pow_sub_one_eq_mod]

theorem width_dvd : tr.width cfg ∣ 2 ^ 64 := by
  obtain ⟨i, hi, hw⟩ := h.width_eq
  exact hw ▸ pow_dvd_pow 2 (hi.trans (by omega))

end Valid

/-! ### One beat -/

/-- The address of a byte modulo something that divides the address space. -/
theorem toNat_add_mod {m : ℕ} (hm : m ∣ 2 ^ 64) (a : Addr) (k : ℕ) : (a + BitVec.ofNat 64 k).toNat % m = (a.toNat + k) % m := by
  rw [BitVec.toNat_add, BitVec.toNat_ofNat, Nat.mod_mod_of_dvd _ hm, Nat.add_mod, Nat.mod_mod_of_dvd _ hm, ← Nat.add_mod]

/-- A beat that must end with its block: the bytes left, the bus, the streaming width and the block. -/
theorem min_first {len bus sw width block : ℕ} (h : block ≤ width) :
    min (min (min len (min bus sw)) width) block = min len (min sw (min bus block)) := by
  rw [min_assoc, min_eq_right h]
  ac_rfl

/-- A beat within its block takes the bytes left or the lanes of the block. -/
theorem min_next {len bus sw width : ℕ} (h : len ≤ sw) : min (min len (min bus sw)) width = min len (min bus width) := by
  calc min (min len (min bus sw)) width = min (min len sw) (min bus width) := by ac_rfl
    _ = min len (min bus width) := by rw [min_eq_left h]

theorem min_add_sub (len pos d : ℕ) : min len (pos + d) - pos = min (len - pos) d := by omega

/-- A beat takes what is left of the payload up to the next cut. -/
theorem Valid.prepareWbeat_snd (h : tr.Valid cfg) {n : ℕ} (hn : n < tr.beats cfg) :
    (tr.prepareWbeat cfg (n + 1) (tr.offset cfg n) (tr.start cfg n)).2 = tr.start cfg (n + 1) - tr.start cfg n := by
  have hlt := h.lt_beats_iff.1 hn
  have hmin := h.min_sub_mod (tr.gp.address.toNat + tr.offset cfg n)
  simp only [prepareWbeat, Nat.mod_eq_of_lt (h.offset_lt hn), toNat_add_mod (bus_dvd cfg), h.and_width, toNat_add_mod h.width_dvd]
  rw [h.start_eq hn, start]
  by_cases hfix : tr.burstType = .fixed
  · have hoff : tr.offset cfg n = 0 := if_pos hfix
    have hcut : tr.cut cfg (n + 1) = tr.cut cfg n + tr.step cfg := by simp only [cut, if_pos hfix, Nat.succ_mul]
    rw [hoff] at hmin ⊢
    rw [if_pos (Or.inl hfix), min_first (Nat.sub_le _ _), hmin, hcut, min_add_sub]
    rfl
  · have hoff : tr.offset cfg n = tr.cut cfg n := by rw [offset, if_neg hfix, h.start_eq hn]
    have hsw : tr.gp.dataLength ≤ tr.gp.streamingWidth := not_lt.1 fun hlt => hfix (h.fixed_iff.2 hlt)
    rw [hoff] at hmin ⊢
    rcases Nat.eq_zero_or_pos n with rfl | hpos
    · -- the first beat ends where the lanes of its block do
      have hcut : tr.cut cfg (0 + 1) = tr.laneWidth cfg - tr.gp.address.toNat % tr.laneWidth cfg := by
        simp only [cut, if_neg hfix, Nat.zero_add, Nat.one_mul]
      rw [cut_zero] at hmin ⊢
      rw [if_pos (Or.inr rfl), min_first (Nat.sub_le _ _), hmin, hcut, ← min_assoc, Nat.add_zero, Nat.sub_zero, Nat.sub_zero,
        Nat.sub_zero, min_eq_left hsw]
    · rw [if_neg (not_or.2 ⟨hfix, by omega⟩), min_next (Nat.sub_le_sub_right hsw _)]
      -- the others start a block of lanes
      have hle : tr.laneWidth cfg ≤ n * tr.laneWidth cfg := Nat.le_mul_of_pos_left _ hpos
      have hmod := Nat.mod_lt tr.gp.address.toNat h.laneWidth_pos
      have hcut : tr.cut cfg (n + 1) = tr.cut cfg n + tr.laneWidth cfg := by
        simp only [cut, if_neg hfix, Nat.succ_mul]
        omega
      have hsum : tr.gp.address.toNat + tr.cut cfg n = alignDown tr.gp.address.toNat (tr.laneWidth cfg) + n * tr.laneWidth cfg := by
        have := alignDown_add_mod tr.gp.address.toNat (tr.laneWidth cfg)
        simp only [cut, if_neg hfix]
        omega
      have hdvd : (tr.gp.address.toNat + tr.cut cfg n) % tr.laneWidth cfg = 0 := by
        rw [hsum]
        exact Nat.mod_eq_zero_of_dvd (Nat.dvd_add (dvd_alignDown _ _) (Nat.dvd_mul_left _ _))
      rw [hdvd, Nat.sub_zero] at hmin
      have hlanes : min (cfg.dataBusBytes - (tr.gp.address.toNat + tr.cut cfg n) % cfg.dataBusBytes) (tr.width cfg) = tr.laneWidth cfg := by
        refine le_antisymm ?_ (le_min (hmin ▸ min_le_left _ _) (min_le_left _ _))
        exact le_min (min_le_right _ _) ((min_le_left _ _).trans (Nat.sub_le _ _))
      rw [hlanes, hcut, min_add_sub]

/-! ### The loop -/

/-- The signals of beat `n`. -/
def beatAt (cfg : Config) (tr : Transaction) (n : ℕ) : WriteBeat := (tr.prepareWbeat cfg (n + 1) (tr.offset cfg n) (tr.start cfg n)).1

/-- The loop from beat `n` on makes the remaining beats. -/
theorem Valid.dataLoop_eq (h : tr.Valid cfg) (k n fuel : ℕ) (hk : n + k = tr.beats cfg) (hfuel : k < fuel) :
    tr.dataLoop cfg fuel (tr.start cfg n) (tr.offset cfg n) (n + 1) = some ((List.range' n k).map (tr.beatAt cfg)) := by
  obtain ⟨fuel, rfl⟩ := Nat.exists_eq_add_one_of_ne_zero (by omega : fuel ≠ 0)
  induction k generalizing n fuel with
  | zero =>
    obtain rfl : n = tr.beats cfg := hk
    have hend : tr.start cfg (tr.beats cfg) = tr.gp.dataLength := min_eq_left h.length_le_cut
    simp [dataLoop, hend]
  | succ k ih =>
    have hn : n < tr.beats cfg := by omega
    have hlt : tr.start cfg n < tr.gp.dataLength := by
      rw [h.start_eq hn]
      exact h.lt_beats_iff.1 hn
    have hle : tr.start cfg n ≤ tr.start cfg (n + 1) := min_le_min_left _ (cut_mono (Nat.le_succ n))
    have hoff : (if tr.burstType = .fixed then tr.offset cfg n else tr.offset cfg n + (tr.start cfg (n + 1) - tr.start cfg n)) =
        tr.offset cfg (n + 1) := by
      unfold offset
      split
      · rfl
      · exact Nat.add_sub_cancel' hle
    obtain ⟨fuel, rfl⟩ := Nat.exists_eq_add_one_of_ne_zero (by omega : fuel ≠ 0)
    have hrest := ih (n + 1) (by omega) fuel (by omega)
    rw [dataLoop, if_pos hlt]
    simp only [h.prepareWbeat_snd hn, hoff, Nat.add_sub_cancel' hle, hrest, List.range'_succ]
    rfl

theorem dataLoop_mono {fuel fuel' pos addrPos beat : ℕ} {beats : List WriteBeat} (hle : fuel ≤ fuel')
    (h : tr.dataLoop cfg fuel pos addrPos beat = some beats) : tr.dataLoop cfg fuel' pos addrPos beat = some beats := by
  induction fuel generalizing fuel' pos addrPos beat beats with
  | zero => cases h
  | succ fuel ih =>
    obtain ⟨fuel', rfl⟩ := Nat.exists_eq_add_one_of_ne_zero (by omega : fuel' ≠ 0)
    rw [dataLoop] at h ⊢
    split at h
    · rename_i hlt
      rw [if_pos hlt]
      obtain ⟨rest, hrest, hcons⟩ := Option.map_eq_some_iff.1 h
      exact Option.map_eq_some_iff.2 ⟨rest, ih (by omega) hrest, hcons⟩
    · rename_i hlt
      rwa [if_neg hlt]

/-- The data phase of a payload with data ends, and these are its beats. -/
theorem Valid.emits_iff (h : tr.Valid cfg) (hdata : tr.hasData cfg = true) {beats : List WriteBeat} :
    tr.Emits cfg beats ↔ beats = (List.range' 0 (tr.beats cfg)).map (tr.beatAt cfg) := by
  have hstart : tr.start cfg 0 = 0 := by simp [start, cut_zero]
  have hoff : tr.offset cfg 0 = 0 := by simp [offset, hstart]
  have hrun := h.dataLoop_eq (tr.beats cfg) 0 (tr.beats cfg + 1) (Nat.zero_add _) (Nat.lt_succ_self _)
  rw [hstart, hoff] at hrun
  rw [Emits, if_pos hdata]
  refine ⟨fun ⟨fuel, hfuel⟩ => ?_, fun hbeats => ⟨_, hbeats ▸ hrun⟩⟩
  have h1 := dataLoop_mono (Nat.le_max_left fuel (tr.beats cfg + 1)) hfuel
  have h2 := dataLoop_mono (Nat.le_max_right fuel (tr.beats cfg + 1)) hrun
  exact Option.some.inj (h1.symm.trans h2)

/-! ### What the beats write -/

section Writes

variable (cfg tr)

/-- The beat that takes byte `k` of the payload. -/
def beatOf (k : ℕ) : ℕ :=
  if tr.burstType = .fixed then k / tr.step cfg
  else (tr.gp.address.toNat % tr.laneWidth cfg + k) / tr.laneWidth cfg

/-- The byte whose address and byte enable byte `k` of the payload goes out with. -/
def placeOf (k : ℕ) : ℕ := if tr.burstType = .fixed then k % tr.step cfg else k

/-- The lane of byte `k`. -/
def laneOf (k : ℕ) : ℕ := (tr.gp.address.toNat + tr.placeOf cfg k) % cfg.dataBusBytes

/-- Byte `k` goes out strobed, on a lane of its beat. -/
def Carried (k : ℕ) : Prop :=
  tr.gp.enabled (tr.placeOf cfg k) = true ∧ (tr.burst cfg).Active cfg.dataBusBytes (tr.beatOf cfg k) (tr.laneOf cfg k)

instance : DecidablePred (tr.Carried cfg) := fun _ => inferInstanceAs (Decidable (_ ∧ _))

/-- Where byte `k` is written. -/
def writtenAddr (k : ℕ) : ℕ := (tr.burst cfg).laneAddr cfg.dataBusBytes (tr.beatOf cfg k) (tr.laneOf cfg k)

end Writes

/-- The bytes between two cuts belong to the beat between them. -/
theorem Valid.beatOf_start_add (h : tr.Valid cfg) {n i : ℕ} (hn : n < tr.beats cfg) (hi : i < tr.start cfg (n + 1) - tr.start cfg n) :
    tr.beatOf cfg (tr.start cfg n + i) = n ∧ tr.placeOf cfg (tr.start cfg n + i) = tr.offset cfg n + i := by
  have hnext : tr.start cfg n + i < tr.cut cfg (n + 1) := by
    have : tr.start cfg (n + 1) ≤ tr.cut cfg (n + 1) := min_le_right _ _
    omega
  have hstart := h.start_eq hn
  unfold beatOf placeOf offset
  rw [hstart] at hnext ⊢
  by_cases hfix : tr.burstType = .fixed
  · simp only [cut, if_pos hfix, Nat.succ_mul] at hnext ⊢
    have hlt : i < tr.step cfg := by omega
    rw [Nat.mul_comm, Nat.mul_add_div h.step_pos, Nat.mul_add_mod, Nat.div_eq_of_lt hlt, Nat.mod_eq_of_lt hlt]
    omega
  · simp only [cut, if_neg hfix, Nat.succ_mul] at hnext hstart ⊢
    have hmod := Nat.mod_lt tr.gp.address.toNat h.laneWidth_pos
    refine ⟨Nat.div_eq_of_lt_le ?_ ?_, trivial⟩
    · omega
    · rw [Nat.succ_mul]
      rcases Nat.eq_zero_or_pos n with rfl | hpos
      · omega
      · have := Nat.le_mul_of_pos_left (tr.laneWidth cfg) hpos
        omega

/-- A beat stays in the bus word it starts in. -/
theorem prepareWbeat_snd_le (beat pos : ℕ) {offset : ℕ} (hoff : offset < tr.gp.streamingWidth) :
    (tr.prepareWbeat cfg beat offset pos).2 ≤ cfg.dataBusBytes - (tr.gp.address.toNat + offset) % cfg.dataBusBytes := by
  simp only [prepareWbeat, Nat.mod_eq_of_lt hoff, toNat_add_mod (bus_dvd cfg)]
  split <;> omega

/-- What beat `n` writes, as AXI reads its lanes. -/
theorem Valid.beatWrites_eq (h : tr.Valid cfg) {n : ℕ} (hn : n < tr.beats cfg) :
    (tr.burst cfg).beatWrites cfg.dataBusBytes n (tr.beatAt cfg n).toBeat =
      (List.range (tr.start cfg (n + 1) - tr.start cfg n)).filterMap fun i =>
        if tr.Carried cfg (tr.start cfg n + i) then some (tr.writtenAddr cfg (tr.start cfg n + i), tr.gp.data (tr.start cfg n + i)) else none := by
  have hoff := h.offset_lt hn
  have hsnd := h.prepareWbeat_snd hn
  have hfit : tr.start cfg (n + 1) - tr.start cfg n ≤ cfg.dataBusBytes - (tr.gp.address.toNat + tr.offset cfg n) % cfg.dataBusBytes :=
    hsnd ▸ prepareWbeat_snd_le (n + 1) (tr.start cfg n) hoff
  have hbus : 0 < cfg.dataBusBytes := Nat.two_pow_pos _
  have hlt := Nat.mod_lt (tr.gp.address.toNat + tr.offset cfg n) hbus
  set off := (tr.gp.address.toNat + tr.offset cfg n) % cfg.dataBusBytes with hoffset
  set d := tr.start cfg (n + 1) - tr.start cfg n
  have hbyte : (tr.gp.address + BitVec.ofNat 64 (tr.offset cfg n % tr.gp.streamingWidth)).toNat % cfg.dataBusBytes = off := by
    rw [Nat.mod_eq_of_lt hoff, toNat_add_mod (bus_dvd cfg)]
  -- the byte on lane `l`
  have hstrb : ∀ l, (tr.beatAt cfg n).strb l =
      (decide ((l + cfg.dataBusBytes - off) % cfg.dataBusBytes < d) &&
        tr.gp.enabled ((l + cfg.dataBusBytes - off) % cfg.dataBusBytes + tr.offset cfg n)) := fun l => by
    rw [← hsnd, ← hbyte]
    rfl
  have hdata : ∀ l, (tr.beatAt cfg n).data l =
      if (l + cfg.dataBusBytes - off) % cfg.dataBusBytes < d then
        tr.gp.data (tr.start cfg n + (l + cfg.dataBusBytes - off) % cfg.dataBusBytes) else 0 := fun l => by
    rw [← hsnd, ← hbyte]
    rfl
  rw [Burst.beatWrites, filterMap_window (by omega : off + d ≤ cfg.dataBusBytes)]
  · refine List.filterMap_congr fun i hi => ?_
    have hid : i < d := List.mem_range.1 hi
    obtain ⟨hbeat, hplace⟩ := h.beatOf_start_add hn hid
    have hlane : (off + i + cfg.dataBusBytes - off) % cfg.dataBusBytes = i := by
      rw [show off + i + cfg.dataBusBytes - off = i + cfg.dataBusBytes by omega, Nat.add_mod_right, Nat.mod_eq_of_lt (by omega)]
    have hlaneOf : tr.laneOf cfg (tr.start cfg n + i) = off + i := by
      rw [laneOf, hplace, ← Nat.add_assoc, Nat.add_mod, ← hoffset, Nat.mod_eq_of_lt (by omega : i < cfg.dataBusBytes),
        Nat.mod_eq_of_lt (by omega)]
    simp only [hstrb, hdata, hlane, hid, decide_true, Bool.true_and, if_true, Carried, writtenAddr, hbeat, hlaneOf, hplace,
      Nat.add_comm i (tr.offset cfg n)]
  · intro l hl hout
    have hno : ¬(l + cfg.dataBusBytes - off) % cfg.dataBusBytes < d := by
      rcases Nat.lt_or_ge l off with hlo | hlo
      · rw [Nat.mod_eq_of_lt (by omega)]
        omega
      · rw [show l + cfg.dataBusBytes - off = l - off + cfg.dataBusBytes by omega, Nat.add_mod_right, Nat.mod_eq_of_lt (by omega)]
        omega
    simp [hstrb, hno]

theorem Valid.writes_eq (h : tr.Valid cfg) :
    (tr.burst cfg).writes cfg.dataBusBytes (((List.range' 0 (tr.beats cfg)).map (tr.beatAt cfg)).map (·.toBeat)) =
      (List.range tr.gp.dataLength).filterMap fun k =>
        if tr.Carried cfg k then some (tr.writtenAddr cfg k, tr.gp.data k) else none := by
  have hall : min tr.gp.dataLength (tr.cut cfg (tr.beats cfg)) = tr.gp.dataLength := min_eq_left h.length_le_cut
  conv_rhs => rw [← hall]
  rw [filterMap_cuts _ cut_zero cut_mono, List.map_map, Burst.writes, Burst.writesFrom_map]
  refine List.flatMap_congr fun n hn => ?_
  rw [List.mem_range'_1] at hn
  exact h.beatWrites_eq (by omega)

end Transaction

end LibSystemCTLM.Tlm2Axi
