import LibSystemCTLM.Xgmii.Lanes
import Mathlib.Data.List.GetD

/-!
# What the receiver makes of a packet, and of anything else

Whatever came before it, a packet that fits in the buffer together with its checksum is sent on once and as it is
(`feed_send`): the receiver starts over at the start of the frame, it reads the flits as it would read their
lanes one by one (`feed_eq_foldl`, the fast path included), and the bytes gathered are those of the packet.

What else comes on the bus can lead it astray in two ways. The fast path stores eight bytes without a look at the
room there is, and the overrun is looked for by an equality with the size of the buffer; and an end of frame right
behind the preamble asks for a payload of `len - 4` bytes with less than four gathered. `Fair` is the condition
that leaves these out.
-/

namespace LibSystemCTLM.Xgmii

open Foundation Tlm

/-! ### The byte path -/

/-- Bytes stored one behind the other. -/
def State.storeAll (s : State) (bs : List Byte) : State :=
  { s with
    buf := fun i => if s.len.toNat ≤ i ∧ i < s.len.toNat + bs.length then bs.getD (i - s.len.toNat) 0 else s.buf i
    len := s.len + BitVec.ofNat 32 bs.length }

theorem toNat_len_add {s : State} {n : ℕ} (h : s.len.toNat + n ≤ bufSize) : (s.len + BitVec.ofNat 32 n).toNat = s.len.toNat + n := by
  rw [bufSize] at h
  rw [BitVec.toNat_add, BitVec.toNat_ofNat, Nat.mod_eq_of_lt (show n < 2 ^ 32 by omega), Nat.mod_eq_of_lt (by omega)]

theorem State.storeAll_nil (s : State) : s.storeAll [] = s := by
  have hbuf : (fun i => if s.len.toNat ≤ i ∧ i < s.len.toNat + 0 then ([] : List Byte).getD (i - s.len.toNat) 0 else s.buf i) = s.buf := by
    funext i
    rw [if_neg (by omega)]
  rw [storeAll, List.length_nil, hbuf, BitVec.add_zero]

theorem State.storeAll_cons {s : State} {b : Byte} {bs : List Byte} (h : s.len.toNat + (bs.length + 1) ≤ bufSize) :
    s.storeAll (b :: bs) = ({ s with buf := Function.update s.buf s.len.toNat b, len := s.len + BitVec.ofNat 32 1 } : State).storeAll bs := by
  have hnext : (s.len + BitVec.ofNat 32 1).toNat = s.len.toNat + 1 := toNat_len_add (by omega)
  simp only [storeAll, hnext, List.length_cons]
  congr 1
  · funext i
    rcases Nat.lt_trichotomy i s.len.toNat with hi | hi | hi
    · rw [if_neg (by omega), if_neg (by omega), Function.update_of_ne (by omega)]
    · subst hi
      rw [if_pos (by omega), if_neg (by omega), Function.update_self, Nat.sub_self, List.getD_cons_zero]
    · by_cases hin : i < s.len.toNat + (bs.length + 1)
      · rw [if_pos (by omega), if_pos (by omega), show i - s.len.toNat = i - (s.len.toNat + 1) + 1 by omega, List.getD_cons_succ]
      · rw [if_neg (by omega), if_neg (by omega), Function.update_of_ne (by omega)]
  · rw [BitVec.add_assoc, Nat.add_comm, BitVec.ofNat_add]

theorem processByte_data {s : State} (hsof : s.sofFound = true) (hd5 : s.preambleD5Found = true) (b : Byte)
    (hlen : s.len.toNat + 1 < bufSize) :
    s.processByte (b, false) = { s with buf := Function.update s.buf s.len.toNat b, len := s.len + BitVec.ofNat 32 1 } := by
  have hnext : (s.store b).len.toNat = s.len.toNat + 1 := toNat_len_add (n := 1) (by omega)
  rw [State.processByte, if_neg (by simp), State.gather, if_pos hsof, if_pos hd5, State.checkOverrun, hnext,
    if_neg (by omega), State.store, decide_eq_false (by omega), Bool.or_false, BitVec.ofNat_eq_ofNat]

/-- Within the buffer the bytes of a packet are stored one behind the other. -/
theorem foldl_data {s : State} (hsof : s.sofFound = true) (hd5 : s.preambleD5Found = true) (bs : List Byte)
    (hlen : s.len.toNat + bs.length < bufSize) :
    (bs.map fun b => (b, false)).foldl State.processByte s = s.storeAll bs := by
  induction bs generalizing s with
  | nil => exact s.storeAll_nil.symm
  | cons b bs ih =>
    rw [List.length_cons] at hlen
    have hnext : (s.len + BitVec.ofNat 32 1).toNat = s.len.toNat + 1 := toNat_len_add (by omega)
    rw [List.map_cons, List.foldl_cons, processByte_data hsof hd5 b (by omega), State.storeAll_cons (by omega)]
    refine ih hsof hd5 ?_
    simp only [hnext]
    omega

theorem foldl_idle (n : ℕ) (s : State) : (List.replicate n ((0x07 : Byte), true)).foldl State.processByte s = s := by
  induction n with
  | zero => rfl
  | succ n ih =>
    rw [List.replicate_succ, List.foldl_cons]
    exact ih

/-! ### The fast path -/

/-- There is room for so many more bytes. -/
structure State.Room (s : State) (n : ℕ) : Prop where
  sof : s.preambleD5Found = true → s.sofFound = true
  lt : s.len.toNat + n < bufSize

/-- The bytes of data in a list of lanes. -/
abbrev dataCount (ls : List (Byte × Bool)) : ℕ := ls.countP fun l => !l.2

variable {s : State} {m : Mode}

theorem State.Room.reset {n : ℕ} (h : s.Room n) : s.reset.Room n := by
  refine ⟨nofun, ?_⟩
  have := h.lt
  simp only [State.reset]
  exact Nat.lt_of_le_of_lt (by simp) this

/-- A lane takes no more room than it has data. -/
theorem State.Room.processByte {n : ℕ} (l : Byte × Bool) (h : s.Room (n + dataCount [l])) : (s.processByte l).Room n := by
  obtain ⟨b, k⟩ := l
  cases k with
  | true =>
    have h : s.Room n := h
    rw [State.processByte, if_pos rfl, State.processCtrl]
    split_ifs
    · exact ⟨nofun, Nat.lt_of_le_of_lt (Nat.add_le_add_right (Nat.zero_le _) n) h.lt⟩
    · exact h.reset
    · exact h.reset
    · exact State.Room.reset (s := s.emit) ⟨h.sof, h.lt⟩
    · exact h
  | false =>
    have h : s.Room (n + 1) := h
    have hgather : (s.gather b).Room n := by
      have hlt := h.lt
      have hsame : s.Room n := ⟨h.sof, by omega⟩
      rw [State.gather]
      split_ifs with hsof
      · refine ⟨h.sof, ?_⟩
        have hnext : (s.store b).len.toNat = s.len.toNat + 1 := toNat_len_add (n := 1) (by omega)
        rw [hnext]
        omega
      · exact ⟨fun _ => hsof, hsame.lt⟩
      · exact hsame
      · exact ⟨h.sof, hsame.lt⟩
      · exact hsame
      · exact hsame
    rw [State.processByte, if_neg (by simp), State.checkOverrun]
    split_ifs
    · exact hgather.reset
    · exact hgather

theorem State.Room.foldl {ls : List (Byte × Bool)} {n : ℕ} (h : s.Room (n + dataCount ls)) :
    (ls.foldl State.processByte s).Room n := by
  induction ls generalizing s with
  | nil => exact h
  | cons l ls ih =>
    refine ih (State.Room.processByte l ?_)
    rw [Nat.add_assoc, Nat.add_comm (dataCount ls), ← List.countP_append]
    exact h

/-- The lanes of a flit on the fast path are data. -/
theorem laneList_of_fast {f : Flit} (h : s.fast m f = true) :
    m = .mode10G ∧ s.preambleD5Found = true ∧ f.laneList m = (((List.range 8).map fun l => (f.lane l).1).map fun b => (b, false)) := by
  simp only [State.fast, Bool.and_eq_true, decide_eq_true_eq] at h
  obtain ⟨⟨rfl, hd5⟩, hxxc⟩ := h
  refine ⟨rfl, hd5, ?_⟩
  rw [Flit.laneList, List.map_map]
  refine List.map_congr_left fun l _ => ?_
  exact Prod.ext rfl (f.lane_of_xxc_eq_zero hxxc l)

/-- The `memcpy` stores the bytes of the lanes. -/
theorem State.storeFlit_eq {f : Flit} (h : s.len.toNat + 8 ≤ bufSize) :
    s.storeFlit f = s.storeAll ((List.range 8).map fun l => (f.lane l).1) := by
  have hlength : ((List.range 8).map fun l => (f.lane l).1).length = 8 := by simp
  rw [storeFlit, storeAll, hlength, decide_eq_false (by omega), Bool.or_false]
  congr 1
  funext i
  by_cases hi : s.len.toNat ≤ i ∧ i < s.len.toNat + 8
  · rw [if_pos hi, if_pos hi, List.getD_eq_getElem _ _ (by rw [hlength]; omega), List.getElem_map, List.getElem_range]
  · rw [if_neg hi, if_neg hi]

/-- **The fast path agrees with the byte path**, as long as there is room. -/
theorem process_eq_foldl {f : Flit} {n : ℕ} (h : s.Room (n + dataCount (f.laneList m))) :
    process m s f = (f.laneList m).foldl State.processByte s := by
  rw [process]
  split_ifs with hfast
  · obtain ⟨rfl, hd5, hlanes⟩ := laneList_of_fast hfast
    have hcount : dataCount (f.laneList .mode10G) = 8 := by
      rw [hlanes]
      simp [dataCount, Function.comp_def]
    have hlt := h.lt
    rw [hcount] at hlt
    rw [hlanes, foldl_data (h.sof hd5) hd5 _ (by simp; omega), State.storeFlit_eq (by omega)]
  · rfl

/-- Flits for whose data there is room are read as their lanes one by one. -/
theorem feed_eq_foldl {fs : List Flit} (h : s.Room (dataCount (fs.flatMap (Flit.laneList m)))) :
    feed m fs s = (fs.flatMap (Flit.laneList m)).foldl State.processByte s := by
  induction fs generalizing s with
  | nil => rfl
  | cons f fs ih =>
    rw [List.flatMap_cons, dataCount, List.countP_append, Nat.add_comm] at h
    rw [feed, List.foldl_cons, process_eq_foldl h, List.flatMap_cons, List.foldl_append]
    exact ih h.foldl

/-! ### The round trip -/

theorem feed_mode1G (fs : List Flit) (s : State) :
    feed .mode1G fs s = (fs.flatMap (Flit.laneList .mode1G)).foldl State.processByte s := by
  induction fs generalizing s with
  | nil => rfl
  | cons f fs ih =>
    rw [List.flatMap_cons, List.foldl_append, ← ih]
    rfl

/-- Eight bytes of which the first is a control code do not take the fast path. -/
theorem feed_ctrl {bs : List Byte} (hbs : bs.length = 8) {ctrl : BitVec 64} (hctrl : ctrl.getLsbD 0 = true) (s : State) :
    feed m (pushDataBuf m bs ctrl) s = (marks bs ctrl).foldl State.processByte s := by
  cases m with
  | mode1G => rw [feed_mode1G, pushDataBuf_lanes (one_dvd _)]
  | mode10G =>
    obtain ⟨g, hg, hlanes⟩ := pushDataBuf_flit (m := .mode10G) hbs [] ctrl
    rw [List.append_nil, pushDataBuf] at hg
    have hslow : ¬s.fast .mode10G g = true := by
      intro hfast
      obtain ⟨b, bs, rfl⟩ := List.exists_cons_of_length_eq_add_one hbs
      have hall := (laneList_of_fast hfast).2.2
      rw [hlanes, marks, hctrl, List.range_succ_eq_map] at hall
      simp at hall
    rw [hg, feed, List.foldl_cons, List.foldl_nil, process, if_neg hslow, hlanes]

/-- A preamble starts over, whatever came before. -/
theorem feed_preamble (s : State) :
    feed m (pushDataBuf m sofPreambleSeq 1) s =
      { s with sofFound := true, preamble55Found := true, preambleD5Found := true, len := 0 } := by
  have hmarks : marks sofPreambleSeq 1 = (0xfb, true) :: List.replicate 6 (0x55, false) ++ [(0xd5, false)] := by decide
  rw [feed_ctrl rfl rfl, hmarks]
  simp [State.processByte, State.processCtrl, State.gather, State.checkOverrun, bufSize, List.replicate]

theorem feed_idle (s : State) : feed m (pushDataBuf m idleSeq 0xff) s = s := by
  rw [feed_ctrl rfl rfl]
  exact foldl_idle 8 s

theorem length_last (p : List Byte) : (last p).length = p.length % 8 + 5 := by
  simp only [last, checksum, List.length_append, List.length_drop, List.length_cons, List.length_nil]
  omega

theorem length_lastFlits_dvd (p : List Byte) : 8 ∣ (lastFlits p).length := by
  rw [lastFlits, List.length_append, List.length_replicate, length_last]
  split_ifs <;> omega

/-- `last.c` marks the end of frame and what is behind it. -/
theorem getLsbD_lastCtrl (p : List Byte) {i : ℕ} (hi : i < 32) : (lastCtrl p).getLsbD i = decide (p.length % 8 + 4 ≤ i) := by
  have hones : (0xffffffff#32 : BitVec 32) = BitVec.allOnes 32 := by decide
  rw [lastCtrl, length_last, BitVec.getLsbD_setWidth, BitVec.getLsbD_shiftLeft, hones, BitVec.getLsbD_allOnes]
  by_cases h : p.length % 8 + 4 ≤ i
  · simp [h, hi, show i < 64 by omega, show i - (p.length % 8 + 4) < 32 by omega]
  · simp [h]

/-- The flits behind the preamble: the packet, the checksum, the end of frame, and idle codes. -/
theorem lanes_packet (m : Mode) (p : List Byte) :
    ∃ k, (pushDataBuf m (p.take (p.length / 8 * 8)) 0 ++ pushDataBuf m (lastFlits p) (lastCtrl p)).flatMap (Flit.laneList m) =
      ((p ++ checksum).map fun b => (b, false)) ++ (0xfd, true) :: List.replicate k (0x07, true) := by
  have hdvd : 8 ∣ (p.take (p.length / 8 * 8)).length := by
    rw [List.length_take, Nat.min_eq_left (Nat.div_mul_le_self _ _)]
    exact Nat.dvd_mul_left _ _
  have hdata : marks (p.take (p.length / 8 * 8)) 0 = (p.take (p.length / 8 * 8)).map fun b => (b, false) :=
    marks_eq_map fun i _ => by simp
  let k := (if 8 < (last p).length then 16 else 8) - (last p).length
  have hlast : lastFlits p = (p.drop (p.length / 8 * 8) ++ checksum) ++ (0xfd :: List.replicate k 0x07) := by
    have hcut : last p = (p.drop (p.length / 8 * 8) ++ checksum) ++ [0xfd] := rfl
    calc lastFlits p = last p ++ List.replicate k 0x07 := rfl
      _ = _ := by rw [hcut, List.append_assoc, List.singleton_append]
  have hlen : (p.drop (p.length / 8 * 8) ++ checksum).length = p.length % 8 + 4 := by
    rw [List.length_append, List.length_drop, checksum]
    simp only [List.length_cons, List.length_nil]
    omega
  have hk : k < 16 := by
    simp only [k]
    rw [length_last]
    split_ifs <;> omega
  have htail : marks (p.drop (p.length / 8 * 8) ++ checksum) (lastCtrl p) = (p.drop (p.length / 8 * 8) ++ checksum).map fun b => (b, false) := by
    refine marks_eq_map fun i hi => ?_
    rw [hlen] at hi
    rw [getLsbD_lastCtrl p (by omega), decide_eq_false (by omega)]
  have hctrl : marks (0xfd :: List.replicate k 0x07) (lastCtrl p >>> (p.length % 8 + 4)) = (0xfd :: List.replicate k 0x07).map fun b => (b, true) := by
    refine marks_eq_map fun i hi => ?_
    rw [List.length_cons, List.length_replicate] at hi
    rw [BitVec.getLsbD_ushiftRight, getLsbD_lastCtrl p (by omega), decide_eq_true (by omega)]
  refine ⟨k, ?_⟩
  rw [List.flatMap_append, pushDataBuf_lanes (lanes_dvd m hdvd), pushDataBuf_lanes (lanes_dvd m (length_lastFlits_dvd p)),
    hdata, hlast, marks_append, htail, hlen, hctrl, ← List.append_assoc, ← List.map_append, ← List.append_assoc,
    List.take_append_drop, List.map_cons, List.map_replicate]

/-- **A packet is sent on once and as it is**, whatever state the receiver is in. -/
theorem feed_send {p : List Byte} (hp : p.length + checksum.length < bufSize) (m : Mode) (s : State) :
    ∃ e, e.data = p ∧ e.dataLength.toNat = p.length ∧
      (feed m (send m p) s).out = s.out ++ [e] ∧ (feed m (send m p) s).outside = s.outside := by
  obtain ⟨k, hlanes⟩ := lanes_packet m p
  let s₁ : State := { s with sofFound := true, preamble55Found := true, preambleD5Found := true, len := 0 }
  have hlen : s₁.len.toNat + (p ++ checksum).length < bufSize := by
    rw [List.length_append, show s₁.len.toNat = 0 from rfl]
    omega
  have hcount : dataCount (((p ++ checksum).map fun b => (b, false)) ++ (0xfd, true) :: List.replicate k (0x07, true)) = (p ++ checksum).length := by
    simp [dataCount, Function.comp_def, List.countP_replicate]
  have hroom : s₁.Room (dataCount ((pushDataBuf m (p.take (p.length / 8 * 8)) 0 ++ pushDataBuf m (lastFlits p) (lastCtrl p)).flatMap (Flit.laneList m))) := by
    rw [hlanes, hcount]
    exact ⟨fun _ => rfl, hlen⟩
  have hfeed : feed m (send m p) s = (s₁.storeAll (p ++ checksum)).emit.reset := by
    have hsplit : feed m (send m p) s = feed m (pushDataBuf m idleSeq 0xff)
        (feed m (pushDataBuf m (p.take (p.length / 8 * 8)) 0 ++ pushDataBuf m (lastFlits p) (lastCtrl p))
          (feed m (pushDataBuf m sofPreambleSeq 1) (feed m (pushDataBuf m idleSeq 0xff) (feed m (pushDataBuf m idleSeq 0xff) s)))) := by
      simp only [feed, send, List.foldl_append]
    rw [hsplit, feed_idle, feed_idle, feed_idle, feed_preamble, feed_eq_foldl hroom, hlanes, List.foldl_append, foldl_data rfl rfl _ hlen,
      List.foldl_cons, foldl_idle]
    rfl
  have hdataLength : (s₁.storeAll (p ++ checksum)).len - 4 = BitVec.ofNat 32 p.length := by
    simp [State.storeAll, s₁, checksum, BitVec.ofNat_add]
  have hp32 : (BitVec.ofNat 32 p.length).toNat = p.length := by
    rw [bufSize] at hp
    rw [BitVec.toNat_ofNat, Nat.mod_eq_of_lt (by omega)]
  refine ⟨⟨(s₁.storeAll (p ++ checksum)).buf, BitVec.ofNat 32 p.length⟩, ?_, hp32, ?_, ?_⟩
  · rw [Emitted.data, hp32]
    apply List.ext_getElem (by simp)
    intro i hi hip
    have hbuf : (s₁.storeAll (p ++ checksum)).buf i = (p ++ checksum).getD i 0 := by
      rw [State.storeAll]
      simp only [show s₁.len.toNat = 0 from rfl, List.length_append, Nat.sub_zero]
      rw [if_pos (by omega)]
    rw [List.getElem_map, List.getElem_range]
    exact hbuf.trans (by rw [List.getD_append _ _ _ _ hip, List.getD_eq_getElem _ _ hip])
  · rw [hfeed, ← hdataLength]
    rfl
  · rw [hfeed]
    rfl

/-! ### Anything else -/

/-- No store behind the end of the buffer, and no payload with a length below zero. -/
structure Sound (s : State) : Prop where
  inside : s.outside = false
  length : ∀ e ∈ s.out, 0 ≤ e.dataLength.toInt

/-- A byte that is stored finds room, and an end of frame at least the bytes of a checksum. -/
structure FairByte (s : State) (l : Byte × Bool) : Prop where
  room : l.2 = false → s.sofFound = true → s.preambleD5Found = true → s.len.toNat < bufSize
  eof : l = (0xfd, true) → s.preambleD5Found = true → 4 ≤ s.len.toNat

/-- The same at a flit: there is room for eight bytes on the fast path, and each lane finds what it needs on
the other. -/
def Fair (m : Mode) (s : State) (f : Flit) : Prop :=
  if s.fast m f = true then s.len.toNat + 8 ≤ bufSize
  else RunOk (fun s l => some (State.processByte s l)) FairByte s (f.laneList m)

theorem Sound.reset_iff : Sound s.reset ↔ Sound s := ⟨fun h => ⟨h.inside, h.length⟩, fun h => ⟨h.inside, h.length⟩⟩

theorem State.sound_of_emit (h : Sound s.emit) : Sound s := ⟨h.inside, fun e he => h.length e (List.mem_append_left _ he)⟩

theorem sound_checkOverrun_iff : Sound s.checkOverrun ↔ Sound s := by
  rw [State.checkOverrun]
  split_ifs
  · exact Sound.reset_iff
  · exact Iff.rfl

/-- The length of a payload is below zero if fewer than four bytes were gathered. -/
theorem sound_emit_iff (hlen : s.len.toNat ≤ bufSize) : Sound s.emit ↔ Sound s ∧ 4 ≤ s.len.toNat := by
  rw [bufSize] at hlen
  have hsub : 0 ≤ (s.len - 4).toInt ↔ 4 ≤ s.len.toNat := by
    have hfour : BitVec.toNat (4 : BitVec 32) = 4 := rfl
    rw [BitVec.toInt_eq_toNat_cond, BitVec.toNat_sub, hfour]
    split_ifs <;> omega
  constructor
  · intro h
    exact ⟨s.sound_of_emit h, hsub.1 (h.length _ (List.mem_append_right _ (List.mem_singleton_self _)))⟩
  · rintro ⟨h, h4⟩
    refine ⟨h.inside, fun e he => ?_⟩
    rcases List.mem_append.1 he with he | he
    · exact h.length e he
    · rw [List.mem_singleton.1 he]
      exact hsub.2 h4

theorem sound_store_iff (b : Byte) : Sound (s.store b) ↔ Sound s ∧ s.len.toNat < bufSize := by
  constructor
  · intro h
    have hin := h.inside
    simp only [State.store, Bool.or_eq_false_iff, decide_eq_false_iff_not, Nat.not_le] at hin
    exact ⟨⟨hin.1, h.length⟩, hin.2⟩
  · rintro ⟨h, hlt⟩
    refine ⟨?_, h.length⟩
    simp only [State.store, h.inside, Bool.false_or, decide_eq_false_iff_not]
    omega

theorem sound_gather_iff (b : Byte) : Sound (s.gather b) ↔ Sound s ∧ (s.sofFound = true → s.preambleD5Found = true → s.len.toNat < bufSize) := by
  rw [State.gather]
  split_ifs with hsof hd5
  · rw [sound_store_iff]
    simp [hsof, hd5]
  · exact ⟨fun h => ⟨⟨h.inside, h.length⟩, fun _ h' => absurd h' hd5⟩, fun h => ⟨h.1.inside, h.1.length⟩⟩
  · simp [hd5]
  · exact ⟨fun h => ⟨⟨h.inside, h.length⟩, fun _ h' => absurd h' hd5⟩, fun h => ⟨h.1.inside, h.1.length⟩⟩
  · simp [hd5]
  · simp [hsof]

theorem sound_of_processByte (l : Byte × Bool) (h : Sound (s.processByte l)) : Sound s := by
  rw [State.processByte] at h
  split_ifs at h
  · rw [State.processCtrl] at h
    split_ifs at h
    · exact ⟨h.inside, h.length⟩
    · exact Sound.reset_iff.1 h
    · exact Sound.reset_iff.1 h
    · exact s.sound_of_emit (Sound.reset_iff.1 h)
    · exact h
  · exact ((sound_gather_iff l.1).1 (sound_checkOverrun_iff.1 h)).1

/-- A lane goes wrong exactly if it does not find what it needs. -/
theorem sound_processByte_iff (l : Byte × Bool) (hlen : s.len.toNat ≤ bufSize) (hs : Sound s) :
    Sound (s.processByte l) ↔ FairByte s l := by
  obtain ⟨b, k⟩ := l
  cases k with
  | true =>
    rw [State.processByte, if_pos rfl, State.processCtrl]
    split_ifs with hfb hfe hfd hd5
    · subst hfb
      exact ⟨fun _ => ⟨nofun, fun h => absurd (congrArg Prod.fst h) (by decide)⟩, fun _ => ⟨hs.inside, hs.length⟩⟩
    · subst hfe
      exact ⟨fun _ => ⟨nofun, fun h => absurd (congrArg Prod.fst h) (by decide)⟩, fun _ => Sound.reset_iff.2 hs⟩
    · exact ⟨fun _ => ⟨nofun, fun _ h => absurd h (by simp [hd5])⟩, fun _ => Sound.reset_iff.2 hs⟩
    · rw [Sound.reset_iff, sound_emit_iff hlen]
      exact ⟨fun h => ⟨nofun, fun _ _ => h.2⟩, fun h => ⟨hs, h.eof (Prod.ext hfd rfl) (by simpa using hd5)⟩⟩
    · exact ⟨fun _ => ⟨nofun, fun h => absurd (congrArg Prod.fst h) hfd⟩, fun _ => hs⟩
  | false =>
    rw [State.processByte, if_neg (by simp), sound_checkOverrun_iff, sound_gather_iff]
    exact ⟨fun h => ⟨fun _ => h.2, nofun⟩, fun h => ⟨hs, h.room rfl⟩⟩

theorem len_checkOverrun (h : s.len.toNat ≤ bufSize) : s.checkOverrun.len.toNat ≤ bufSize := by
  rw [State.checkOverrun]
  split_ifs
  · exact Nat.zero_le _
  · exact h

/-- The bytes gathered stay within the buffer as long as nothing went wrong. -/
theorem len_processByte (l : Byte × Bool) (hlen : s.len.toNat ≤ bufSize) (h : Sound (s.processByte l)) :
    (s.processByte l).len.toNat ≤ bufSize := by
  rw [State.processByte] at h ⊢
  split_ifs at h ⊢
  · rw [State.processCtrl]
    split_ifs
    · exact Nat.zero_le _
    · exact Nat.zero_le _
    · exact Nat.zero_le _
    · exact Nat.zero_le _
    · exact hlen
  · refine len_checkOverrun ?_
    have hroom := ((sound_gather_iff l.1).1 (sound_checkOverrun_iff.1 h)).2
    rw [State.gather]
    split_ifs with hsof hd5
    · have hlt := hroom hsof hd5
      have hnext : (s.store l.1).len.toNat = s.len.toNat + 1 := toNat_len_add (n := 1) (by omega)
      rw [hnext]
      exact hlt
    all_goals exact hlen

theorem sound_storeFlit_iff (f : Flit) (hs : Sound s) : Sound (s.storeFlit f) ↔ s.len.toNat + 8 ≤ bufSize := by
  constructor
  · intro h
    have hin := h.inside
    simp only [State.storeFlit, Bool.or_eq_false_iff, decide_eq_false_iff_not, Nat.not_lt] at hin
    exact hin.2
  · intro h
    refine ⟨?_, hs.length⟩
    simp only [State.storeFlit, hs.inside, Bool.false_or, decide_eq_false_iff_not, Nat.not_lt]
    exact h

theorem sound_of_process (f : Flit) (h : Sound (process m s f)) : Sound s := by
  rw [process] at h
  split_ifs at h
  · have hin := h.inside
    simp only [State.storeFlit, Bool.or_eq_false_iff] at hin
    exact ⟨hin.1, h.length⟩
  · exact good_of_foldl (fun _ => sound_of_processByte) h

theorem sound_process_iff (f : Flit) (hlen : s.len.toNat ≤ bufSize) (hs : Sound s) : Sound (process m s f) ↔ Fair m s f := by
  rw [process, Fair]
  split_ifs
  · exact sound_storeFlit_iff f hs
  · exact foldl_iff_runOk (fun _ => sound_of_processByte) (fun _ => sound_processByte_iff) (fun _ => len_processByte) hlen hs

theorem len_process (f : Flit) (hlen : s.len.toNat ≤ bufSize) (h : Sound (process m s f)) : (process m s f).len.toNat ≤ bufSize := by
  rw [process] at h ⊢
  split_ifs at h ⊢
  · have hroom := (sound_storeFlit_iff f (sound_of_process (m := m) f (by rw [process, if_pos ‹_›]; exact h))).1 h
    have hnext : (s.storeFlit f).len.toNat = s.len.toNat + 8 := toNat_len_add (n := 8) hroom
    rw [hnext]
    exact hroom
  · exact inv_foldl (fun _ => sound_of_processByte) (fun _ => len_processByte) hlen h

/-- **The receiver stays within its buffer, sends no payload of a length below zero, and gets the next packet
right**, exactly if every flit finds the room it needs and every end of frame the bytes of a checksum. -/
theorem sound_iff_fair (m : Mode) (fs : List Flit) :
    (Sound (feed m fs {}) ∧ ∀ p : List Byte, p.length + checksum.length < bufSize →
      Sound (feed m (fs ++ send m p) {}) ∧ ∃ e, e.data = p ∧ (feed m (fs ++ send m p) {}).out = (feed m fs {}).out ++ [e]) ↔
    RunOk (fun s f => some (process m s f)) (Fair m) {} fs := by
  have hiff : Sound (feed m fs {}) ↔ RunOk (fun s f => some (process m s f)) (Fair m) {} fs :=
    foldl_iff_runOk (fun _ => sound_of_process) (fun _ => sound_process_iff) (fun _ => len_process) (Nat.zero_le _) ⟨rfl, nofun⟩
  refine ⟨fun h => hiff.1 h.1, fun h => ⟨hiff.2 h, fun p hp => ?_⟩⟩
  obtain ⟨e, hdata, hlength, hout, houtside⟩ := feed_send hp m (feed m fs {})
  have hsound := hiff.2 h
  have hfeed : feed m (fs ++ send m p) {} = feed m (send m p) (feed m fs {}) := List.foldl_append
  rw [hfeed]
  refine ⟨⟨houtside.trans hsound.inside, ?_⟩, e, hdata, hout⟩
  intro e' he'
  rw [hout] at he'
  rcases List.mem_append.1 he' with he' | he'
  · exact hsound.length e' he'
  · obtain rfl := List.mem_singleton.1 he'
    rw [bufSize] at hp
    rw [BitVec.toInt_eq_toNat_cond, hlength]
    split_ifs <;> omega

/-- An end of frame right behind the preamble. -/
theorem not_sound_empty : ¬Sound (feed .mode10G [⟨0x07070707fdd555fb, 0xf9⟩] {}) :=
  fun h => absurd (h.length ⟨fun _ => 0, -4⟩ (List.mem_singleton_self _)) (by decide)

end LibSystemCTLM.Xgmii
