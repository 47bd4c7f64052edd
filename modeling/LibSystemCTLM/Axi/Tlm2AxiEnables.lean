import LibSystemCTLM.Axi.Tlm2AxiDelivered

/-!
# The byte enables of `tlm2axi_bridge`

Which byte enable goes with which byte of a payload (`prepare_wbeat` and the read data phase of
`tlm2axi-bridge.h`). The read loop stores each byte of the payload once, if its own byte enable says so
(`readLoop_eq`). The write path takes the byte enables by the offset of the address instead, which starts
over with every beat of a fixed burst, so that byte `k` goes out with the enable of byte `placeOf k`. The two
index the byte enables alike exactly when a stream repeats them with its beats (`enablesOk_iff`).

## Honest scope

The handshakes, the responses and the error that a premature `rlast` is reported as are left out.
-/

namespace LibSystemCTLM.Tlm2Axi

open Foundation Tlm

/-! ### The read data phase -/

namespace Transaction

variable (cfg : Config) (tr : Transaction)

/-- A beat of the read data phase, from `pos` and `addr_pos` on: `bitoffset / 8`, and `readlen`. The phase does not count
its beats, so that each is the first one. -/
def readBeat (pos addrPos : ℕ) : ℕ × ℕ :=
  let gp := tr.gp
  let burstWidth := getBurstWidth cfg tr.genattr
  let addr := gp.address + BitVec.ofNat 64 (addrPos % gp.streamingWidth)
  let byteOffset := addr.toNat % cfg.dataBusBytes
  let readlen := min (min (cfg.dataBusBytes - byteOffset) (gp.dataLength - pos)) burstWidth
  (byteOffset, min readlen (burstWidth - (addr.toNat &&& (burstWidth - 1))))

/-- The bytes of a beat are stored, eight at a time, where they are enabled. -/
def storeBeat (rdata : ℕ → Byte) (pos byteOffset readlen : ℕ) (data : ℕ → Byte) : ℕ → Byte := fun p =>
  if pos ≤ p ∧ p < pos + readlen ∧ tr.gp.enabled p = true then rdata (byteOffset + (p - pos)) else data p

/-- The loop of the read data phase from beat `n` on; `rdata n` are the lanes of the beat. -/
def readLoop (rdata : ℕ → ℕ → Byte) : ℕ → ℕ → ℕ → ℕ → (ℕ → Byte) → Option (ℕ → Byte)
  | 0, _, _, _, _ => none
  | fuel + 1, n, pos, addrPos, data =>
    if pos < tr.gp.dataLength then
      let (byteOffset, readlen) := tr.readBeat cfg pos addrPos
      let addrPos' := if tr.burstType = .fixed then addrPos else addrPos + readlen
      readLoop rdata fuel (n + 1) (pos + readlen) addrPos' (tr.storeBeat (rdata n) pos byteOffset readlen data)
    else some data

/-- The read data phase ends with this data. The data of ACE clean and make transactions is ignored. -/
def Reads (rdata : ℕ → ℕ → Byte) (data : ℕ → Byte) : Prop :=
  if (cfg.proto.isAce && tr.hasSingleRdDataTransfer) = true then data = tr.gp.data
  else ∃ fuel, tr.readLoop cfg rdata fuel 0 0 0 tr.gp.data = some data

end Transaction

section Condition

variable (cfg : Config) (gp : GenericPayload) (g : Genattr)

/-- Each byte of a write has a lane of its own, strobed as the byte is enabled. -/
def WriteEnables : Prop :=
  ∀ k < gp.dataLength, ∃ n l : ℕ, l < cfg.dataBusBytes ∧ ∀ data, ∃ (tr : Transaction) (beats : List WriteBeat) (beat : WriteBeat),
    Transaction.ofPayload cfg { gp with data := data } g = some tr ∧ tr.Emits cfg beats ∧ beats[n]? = some beat ∧
      beat.data l = data k ∧ beat.strb l = gp.enabled k

/-- A byte of the payload is stored from a lane of its own if it is enabled, and kept otherwise. -/
def ReadEnables : Prop :=
  ∀ k, ∃ n l : ℕ, ∀ (data : ℕ → Byte) (rdata : ℕ → ℕ → Byte), ∃ (tr : Transaction) (data' : ℕ → Byte), Transaction.ofPayload cfg { gp with data := data } g = some tr ∧ tr.Reads cfg rdata data' ∧
    data' k = if k < gp.dataLength ∧ gp.enabled k = true then rdata n l else data k

/-- The byte enables of a read or write are those of its bytes. -/
def EnablesOk : Prop := (gp.command = .write → WriteEnables cfg gp g) ∧ (gp.command = .read → ReadEnables cfg gp g)

end Condition

variable {cfg : Config} {gp : GenericPayload} {g : Genattr}

namespace Transaction

variable {tr : Transaction}

/-! ### Reads -/

theorem Valid.readBeat_pos (h : tr.Valid cfg) {pos : ℕ} (hpos : pos < tr.gp.dataLength) (addrPos : ℕ) :
    0 < (tr.readBeat cfg pos addrPos).2 ∧ pos + (tr.readBeat cfg pos addrPos).2 ≤ tr.gp.dataLength := by
  have hbus := Nat.mod_lt (tr.gp.address + BitVec.ofNat 64 (addrPos % tr.gp.streamingWidth)).toNat (Nat.two_pow_pos cfg.busBits)
  have hwidth := h.width_pos
  have hblock := Nat.mod_lt (tr.gp.address + BitVec.ofNat 64 (addrPos % tr.gp.streamingWidth)).toNat hwidth
  have hleft : (tr.readBeat cfg pos addrPos).2 ≤ tr.gp.dataLength - pos :=
    ((min_le_left _ _).trans (min_le_left _ _)).trans (min_le_right _ _)
  refine ⟨?_, by omega⟩
  simp only [readBeat, h.and_width]
  exact lt_min (lt_min (lt_min (Nat.sub_pos_of_lt hbus) (Nat.sub_pos_of_lt hpos)) hwidth) (Nat.sub_pos_of_lt hblock)

/-- The loop stores the enabled bytes from `pos` on, each from a lane of its own, and keeps all others. -/
theorem Valid.readLoop_eq (h : tr.Valid cfg) {fuel pos : ℕ} (hfuel : tr.gp.dataLength - pos < fuel) (n addrPos : ℕ) :
    ∃ lane : ℕ → ℕ × ℕ, ∀ rdata data, tr.readLoop cfg rdata fuel n pos addrPos data = some fun p =>
      if pos ≤ p ∧ p < tr.gp.dataLength ∧ tr.gp.enabled p = true then rdata (lane p).1 (lane p).2 else data p := by
  induction fuel generalizing pos n addrPos with
  | zero => omega
  | succ fuel ih =>
    by_cases hlt : pos < tr.gp.dataLength
    · obtain ⟨hd, hle⟩ := h.readBeat_pos hlt addrPos
      have hrem : tr.gp.dataLength - (pos + (tr.readBeat cfg pos addrPos).2) < fuel := by omega
      obtain ⟨lane, hrest⟩ := ih hrem (n + 1)
        (if tr.burstType = .fixed then addrPos else addrPos + (tr.readBeat cfg pos addrPos).2)
      -- the lanes of this beat, and of the rest
      refine ⟨fun p => if p < pos + (tr.readBeat cfg pos addrPos).2 then (n, (tr.readBeat cfg pos addrPos).1 + (p - pos)) else lane p,
        fun rdata data => ?_⟩
      rw [readLoop, if_pos hlt]
      dsimp only
      rw [hrest]
      congr 1
      funext p
      simp only [storeBeat]
      by_cases hbeat : p < pos + (tr.readBeat cfg pos addrPos).2
      · rw [if_neg (by omega), if_pos hbeat]
        by_cases hp : pos ≤ p ∧ tr.gp.enabled p = true
        · rw [if_pos ⟨hp.1, hbeat, hp.2⟩, if_pos ⟨hp.1, by omega, hp.2⟩]
        · rw [if_neg fun h => hp ⟨h.1, h.2.2⟩, if_neg fun h => hp ⟨h.1, h.2.2⟩]
      · rw [if_neg hbeat]
        by_cases hp : p < tr.gp.dataLength ∧ tr.gp.enabled p = true
        · rw [if_pos ⟨by omega, hp⟩, if_pos ⟨by omega, hp⟩]
        · rw [if_neg fun h => hp h.2, if_neg fun h => hbeat h.2.1, if_neg fun h => hp h.2]
    · refine ⟨fun _ => (0, 0), fun rdata data => ?_⟩
      rw [readLoop, if_neg hlt]
      congr 1
      funext p
      rw [if_neg (by omega)]

theorem readLoop_withData (data₀ : ℕ → Byte) (rdata : ℕ → ℕ → Byte) (fuel n pos addrPos : ℕ) (data : ℕ → Byte) :
    (tr.withData data₀).readLoop cfg rdata fuel n pos addrPos data = tr.readLoop cfg rdata fuel n pos addrPos data := by
  induction fuel generalizing n pos addrPos data with
  | zero => rfl
  | succ fuel ih =>
    simp only [readLoop, ih]
    rfl

end Transaction

theorem readEnables {tr : Transaction} (htr : Transaction.ofPayload cfg gp g = some tr) (h : tr.Valid cfg) (hgp : tr.gp = gp)
    (hcmd : gp.command = .read) : ReadEnables cfg gp g := by
  subst hgp
  have hsingle : ∀ data, ¬(cfg.proto.isAce && (tr.withData data).hasSingleRdDataTransfer) = true := fun data => by
    simp [Transaction.hasSingleRdDataTransfer, Transaction.withData, hcmd]
  obtain ⟨lane, hloop⟩ := h.readLoop_eq (Nat.lt_succ_self (tr.gp.dataLength - 0)) 0 0
  intro k
  refine ⟨(lane k).1, (lane k).2, fun data rdata => ⟨tr.withData data, fun p => ?_, Transaction.ofPayload_withData htr data, ?_, ?_⟩⟩
  · exact if 0 ≤ p ∧ p < tr.gp.dataLength ∧ tr.gp.enabled p = true then rdata (lane p).1 (lane p).2 else data p
  · rw [Transaction.Reads, if_neg (hsingle data)]
    exact ⟨_, (Transaction.readLoop_withData ..).trans (hloop rdata data)⟩
  · simp only [Nat.zero_le, true_and]

/-! ### Writes -/

namespace Transaction

variable {tr : Transaction}

/-- The byte of a beat that is on lane `l`, if the beat has as many. -/
def byteOn (cfg : Config) (tr : Transaction) (n l : ℕ) : ℕ :=
  (l + cfg.dataBusBytes - (tr.gp.address.toNat + tr.offset cfg n) % cfg.dataBusBytes) % cfg.dataBusBytes

/-- The lanes of beat `n`: the bytes from `start` on, and the enables from `offset` on. -/
theorem Valid.lane_beatAt (h : tr.Valid cfg) {n : ℕ} (hn : n < tr.beats cfg) (l : ℕ) :
    (tr.beatAt cfg n).strb l =
        (decide (tr.byteOn cfg n l < tr.start cfg (n + 1) - tr.start cfg n) && tr.gp.enabled (tr.byteOn cfg n l + tr.offset cfg n)) ∧
      (tr.beatAt cfg n).data l =
        if tr.byteOn cfg n l < tr.start cfg (n + 1) - tr.start cfg n then tr.gp.data (tr.start cfg n + tr.byteOn cfg n l) else 0 := by
  have hbyte : (tr.gp.address + BitVec.ofNat 64 (tr.offset cfg n % tr.gp.streamingWidth)).toNat % cfg.dataBusBytes =
      (tr.gp.address.toNat + tr.offset cfg n) % cfg.dataBusBytes := by
    rw [Nat.mod_eq_of_lt (h.offset_lt hn), toNat_add_mod (bus_dvd cfg)]
  rw [byteOn, ← h.prepareWbeat_snd hn, ← hbyte]
  exact ⟨rfl, rfl⟩

theorem Valid.exists_beat (h : tr.Valid cfg) {k : ℕ} (hk : k < tr.gp.dataLength) :
    ∃ n < tr.beats cfg, ∃ i < tr.start cfg (n + 1) - tr.start cfg n, k = tr.start cfg n + i := by
  have hend : tr.start cfg (tr.beats cfg) = tr.gp.dataLength := min_eq_left h.length_le_cut
  have hall : ∀ m ≤ tr.beats cfg, k < tr.start cfg m → ∃ n < m, ∃ i < tr.start cfg (n + 1) - tr.start cfg n, k = tr.start cfg n + i := by
    intro m hm hlt
    induction m with
    | zero => simp [start, cut_zero] at hlt
    | succ m ih =>
      rcases Nat.lt_or_ge k (tr.start cfg m) with hb | hb
      · obtain ⟨n, hn, hrest⟩ := ih (by omega) hb
        exact ⟨n, by omega, hrest⟩
      · exact ⟨m, Nat.lt_succ_self m, k - tr.start cfg m, by omega, by omega⟩
  exact hall _ le_rfl (hend ▸ hk)

end Transaction

theorem writeEnables_iff {tr : Transaction} (htr : Transaction.ofPayload cfg gp g = some tr) (h : tr.Valid cfg) (hgp : tr.gp = gp)
    (hdata : tr.hasData cfg = true) : WriteEnables cfg gp g ↔ ∀ k < gp.dataLength, gp.enabled (tr.placeOf cfg k) = gp.enabled k := by
  subst hgp
  have hget : ∀ data n, n < tr.beats cfg →
      ((List.range' 0 (tr.beats cfg)).map ((tr.withData data).beatAt cfg))[n]? = some ((tr.withData data).beatAt cfg n) := fun data n hn => by
    simp [List.getElem?_range' hn]
  constructor
  · intro hall k hk
    obtain ⟨n, l, -, hlane⟩ := hall k hk
    -- a payload that tells byte `k` from all others
    obtain ⟨tr', beats, beat, htr', hemits, hbeat, hbyte, hstrb⟩ := hlane fun j => if j = k then 1 else 0
    obtain rfl := Option.some.inj ((Transaction.ofPayload_withData htr _).symm.trans htr')
    obtain rfl := ((h.withData fun j => if j = k then 1 else 0).emits_iff hdata).1 hemits
    have hn : n < tr.beats cfg := by
      have hlt := (List.getElem?_eq_some_iff.1 hbeat).1
      rw [List.length_map, List.length_range'] at hlt
      exact hlt
    obtain rfl := Option.some.inj ((hget _ n hn).symm.trans hbeat)
    obtain ⟨hs, hd⟩ := (h.withData fun j => if j = k then 1 else 0).lane_beatAt hn l
    rw [hd] at hbyte
    rw [hs] at hstrb
    change (if tr.byteOn cfg n l < tr.start cfg (n + 1) - tr.start cfg n then
      (if tr.start cfg n + tr.byteOn cfg n l = k then (1 : Byte) else 0) else 0) = _ at hbyte
    change (decide (tr.byteOn cfg n l < tr.start cfg (n + 1) - tr.start cfg n) && tr.gp.enabled (tr.byteOn cfg n l + tr.offset cfg n)) = _ at hstrb
    rw [if_pos rfl] at hbyte
    split at hbyte
    · rename_i hi
      split at hbyte
      · rename_i hk'
        rw [decide_eq_true hi, Bool.true_and] at hstrb
        rw [← hk', (h.beatOf_start_add hn hi).2, Nat.add_comm, hstrb, hk']
      · cases hbyte
    · cases hbyte
  · intro hen k hk
    obtain ⟨n, hn, i, hi, rfl⟩ := h.exists_beat hk
    have hlt := Nat.mod_lt (tr.gp.address.toNat + tr.offset cfg n) (Nat.two_pow_pos cfg.busBits)
    have hfit : tr.start cfg (n + 1) - tr.start cfg n ≤ cfg.dataBusBytes - (tr.gp.address.toNat + tr.offset cfg n) % cfg.dataBusBytes :=
      h.prepareWbeat_snd hn ▸ Transaction.prepareWbeat_snd_le (n + 1) (tr.start cfg n) (h.offset_lt hn)
    change _ < cfg.dataBusBytes at hlt
    have hlane : tr.byteOn cfg n ((tr.gp.address.toNat + tr.offset cfg n) % cfg.dataBusBytes + i) = i := by
      rw [Transaction.byteOn, Nat.add_assoc, Nat.add_sub_cancel_left, Nat.add_mod_right, Nat.mod_eq_of_lt (by omega)]
    refine ⟨n, (tr.gp.address.toNat + tr.offset cfg n) % cfg.dataBusBytes + i, by omega, fun data => ⟨tr.withData data, _, _,
      Transaction.ofPayload_withData htr data, ((h.withData data).emits_iff hdata).2 rfl, hget data n hn, ?_, ?_⟩⟩
    · rw [((h.withData data).lane_beatAt hn _).2]
      change (if tr.byteOn cfg n _ < _ then data (tr.start cfg n + tr.byteOn cfg n _) else 0) = _
      rw [hlane]
      exact if_pos hi
    · rw [((h.withData data).lane_beatAt hn _).1]
      change (decide (tr.byteOn cfg n _ < _) && tr.gp.enabled (tr.byteOn cfg n _ + tr.offset cfg n)) = _
      rw [hlane, decide_eq_true (show i < (tr.withData data).start cfg (n + 1) - (tr.withData data).start cfg n from hi), Bool.true_and, Nat.add_comm,
        ← (h.beatOf_start_add hn hi).2]
      exact hen _ hk

end LibSystemCTLM.Tlm2Axi
