import LibSystemCTLM.Tlm.Aligner

/-!
# The data lanes of `tlm2axilite_bridge`

The bridge makes one address, one data and one response transfer of a payload of at most the bus width. A write puts
the bytes on its lanes up to the end of the bus word and of the streaming width, and asserts that the latter is not
zero. A read takes beats until the length is used up, though it has requested one, and has its bytes on ascending
lanes, whatever the streaming width. So a payload is carried where it lies in one bus word and does not stream
(`lanes_right_iff`); behind the aligner that is every one that has a streaming width.
-/

namespace LibSystemCTLM.AxiLite

open Tlm

/-- A bus of `2 ^ log` bytes, of which the width in bits is an `int`, and whether there is an aligner. -/
structure Config where
  log : ℕ
  alignerEnable : Bool := true
  log_le : log ≤ 27

namespace Config

variable (cfg : Config)

/-- `DATA_WIDTH / 8`. -/
def busBytes : ℕ := 2 ^ cfg.log

/-- `DATA_WIDTH`. -/
def dataWidth : ℕ := 8 * cfg.busBytes

theorem busBytes_pos : 0 < cfg.busBytes := Nat.two_pow_pos _

/-- `validate`. -/
def validate (_addr : Addr) (len streamingWidth : ℕ) : Bool := decide (len ≤ cfg.busBytes) && decide (len ≤ streamingWidth)

/-- The aligner the constructor makes. -/
def aligner : Aligner where
  busWidth := cfg.dataWidth
  maxLen := cfg.busBytes
  maxAddressBoundary := 4 * 1024
  doNaturalAlignment := true
  validate := some cfg.validate
  busWidth_le := Nat.le_mul_of_pos_right 8 cfg.busBytes_pos

end Config

/-- What `prepare_wbeat` writes to the data channel, lane by lane. -/
structure WBeat where
  strb : ℕ → Bool
  data : ℕ → Byte

variable (cfg : Config) (gp : GenericPayload)

/-- `bitoffset`. -/
def bitoffset (addr : Addr) : ℕ := (addr * 8).toNat % cfg.dataWidth

/-- `Validate`. -/
def Validate : Bool := decide (gp.dataLength ≠ 0) && decide (gp.dataLength ≤ cfg.busBytes)

/-- `wlen`. -/
def wlen : ℕ :=
  let maxlen := (cfg.dataWidth - bitoffset cfg gp.address) / 8
  let maxlen := if gp.streamingWidth < maxlen then gp.streamingWidth else maxlen
  if gp.dataLength ≤ maxlen then gp.dataLength else maxlen

/-- `prepare_wbeat`, with the rotation of the strobes; `none` is the assertion. -/
def prepareWbeat : Option WBeat :=
  if gp.streamingWidth = 0 then none
  else
    let off := bitoffset cfg gp.address / 8
    some
      { strb := fun l =>
          let i := (l + cfg.busBytes - off) % cfg.busBytes
          decide (i < wlen cfg gp) && gp.enabled i
        data := fun l => if off ≤ l ∧ l < off + wlen cfg gp then gp.data (l - off) else 0 }

/-- A turn of the loop of `read_resp_phase` that has read `rdata`: the position, the length left, and the data. `none` is
the division by the streaming width. -/
def readBeat (pos : ℕ) (rdata data : ℕ → Byte) : Option (ℕ × ℕ × (ℕ → Byte)) :=
  if gp.streamingWidth = 0 then none
  else
    let off := bitoffset cfg (gp.address + BitVec.ofNat 64 (pos % gp.streamingWidth))
    let readlen := (cfg.dataWidth - off) / 8
    let readlen := if readlen ≤ gp.dataLength then readlen else gp.dataLength
    some (pos + readlen, gp.dataLength - readlen, fun k =>
      if pos ≤ k ∧ k < pos + readlen ∧ gp.enabled k = true then rdata (k - pos + off / 8) else data k)

/-- The loop: it ends when the length is used up. `none` is also where it waits for a beat. -/
def readResp (data : ℕ → Byte) : List (ℕ → Byte) → ℕ → Option (ℕ → Byte)
  | [], _ => none
  | rdata :: beats, pos =>
    (readBeat cfg gp pos rdata data).bind fun (pos, len, data) => if len = 0 then some data else readResp data beats pos

/-! ### What is asked of it -/

/-- Byte `i` of the payload belongs to lane `l` of the bus word of the address. -/
def OnLane (i l : ℕ) : Prop := l < cfg.busBytes ∧ (gp.byteAddr i).toNat = gp.address.toNat / cfg.busBytes * cfg.busBytes + l

/-- The strobes are those of the enabled bytes, which are all on their lanes, whatever they are. -/
def WriteRight : Prop :=
  ∀ data, ∃ beat, prepareWbeat cfg { gp with data := data } = some beat ∧
    (∀ l < cfg.busBytes, beat.strb l = true ↔ ∃ i < gp.dataLength, gp.enabled i = true ∧ OnLane cfg gp i l) ∧
      ∀ i < gp.dataLength, gp.enabled i = true → ∃ l, OnLane cfg gp i l ∧ beat.data l = data i

/-- The one beat that is requested gives the enabled bytes what is on their lanes, and no other byte is changed. -/
def ReadRight : Prop :=
  ∀ rdata data, ∃ data', readResp cfg gp data [rdata] 0 = some data' ∧
    ∀ i, if i < gp.dataLength ∧ gp.enabled i = true then ∃ l, OnLane cfg gp i l ∧ data' i = rdata l else data' i = data i

/-- What is not a read is written. -/
def BeatRight : Prop := if gp.isRead = true then ReadRight cfg gp else WriteRight cfg gp

/-- The payload, or each part of it that the aligner makes, is accepted and carried. -/
def LanesRight : Prop :=
  if cfg.alignerEnable = true then
    ∃ l, cfg.aligner.bTransport gp = some l ∧
      l.flatMap Aligner.accesses = (List.range gp.dataLength).filterMap (Aligner.access gp) ∧
      ∀ t ∈ l, Validate cfg t.2 = true ∧ BeatRight cfg t.2
  else Validate cfg gp = true → BeatRight cfg gp

/-- Byte `i` is on its lane of the beat. -/
def InBeat (i : ℕ) : Prop := gp.address.toNat % cfg.busBytes + i < cfg.busBytes ∧ i < gp.streamingWidth

/-- The condition. Of a read all bytes have to be in the bus word, also those that are not enabled. -/
def LanesClear : Prop :=
  if cfg.alignerEnable = true then
    (cfg.aligner.FastPath gp ∨ gp.byteEnable.length * 2 < 2 ^ 32) ∧ (gp.dataLength = 0 ∨ gp.streamingWidth ≠ 0)
  else
    Validate cfg gp = true → gp.streamingWidth ≠ 0 ∧ (∀ i < gp.dataLength, gp.enabled i = true → InBeat cfg gp i) ∧
      (gp.isRead = true → gp.address.toNat % cfg.busBytes + gp.dataLength ≤ cfg.busBytes)

variable {cfg gp} {i l : ℕ} {addr : Addr}

theorem busBytes_le (cfg : Config) : cfg.busBytes ≤ 2 ^ 27 := Nat.pow_le_pow_right (by decide) cfg.log_le

theorem busBytes_dvd (cfg : Config) : cfg.busBytes ∣ 2 ^ 64 := pow_dvd_pow 2 (cfg.log_le.trans (by decide))

theorem off_lt (cfg : Config) (addr : Addr) : addr.toNat % cfg.busBytes < cfg.busBytes := Nat.mod_lt _ cfg.busBytes_pos

theorem bitoffset_eq : bitoffset cfg addr = 8 * (addr.toNat % cfg.busBytes) := by
  have hdvd : 8 * cfg.busBytes ∣ 2 ^ 64 := by
    rw [Config.busBytes, show 8 = 2 ^ 3 from rfl, ← pow_add]
    exact pow_dvd_pow 2 (by have := cfg.log_le; omega)
  rw [bitoffset, Config.dataWidth, BitVec.toNat_mul, show (8 : Addr).toNat = 8 from rfl, Nat.mod_mod_of_dvd _ hdvd, Nat.mul_comm,
    Nat.mul_mod_mul_left]

theorem bitoffset_div : bitoffset cfg addr / 8 = addr.toNat % cfg.busBytes := by
  rw [bitoffset_eq, Nat.mul_div_cancel_left _ (by decide)]

theorem left_eq : (cfg.dataWidth - bitoffset cfg addr) / 8 = cfg.busBytes - addr.toNat % cfg.busBytes := by
  rw [bitoffset_eq, Config.dataWidth, ← Nat.mul_sub, Nat.mul_div_cancel_left _ (by decide)]

theorem wlen_eq : wlen cfg gp = min gp.dataLength (min (cfg.busBytes - gp.address.toNat % cfg.busBytes) gp.streamingWidth) := by
  simp only [wlen, left_eq]
  split_ifs <;> omega

/-- Where byte `i` lies, from the lane of the address on. -/
theorem onLane_iff (hi : i < cfg.busBytes) :
    OnLane cfg gp i l ↔ l < cfg.busBytes ∧ l = gp.address.toNat % cfg.busBytes + i % gp.streamingWidth := by
  have hoff := off_lt cfg gp.address
  have hle := busBytes_le cfg
  have hmod := Nat.mod_le i gp.streamingWidth
  have hdiv := Nat.div_add_mod' gp.address.toNat cfg.busBytes
  -- the bus word ends within the address space
  have hend : gp.address.toNat / cfg.busBytes * cfg.busBytes + cfg.busBytes ≤ 2 ^ 64 := by
    obtain ⟨q, hq⟩ := busBytes_dvd cfg
    have hlt := gp.address.isLt
    rw [hq] at hlt ⊢
    have hdivlt := Nat.div_lt_of_lt_mul hlt
    calc gp.address.toNat / cfg.busBytes * cfg.busBytes + cfg.busBytes = (gp.address.toNat / cfg.busBytes + 1) * cfg.busBytes := by ring
      _ ≤ q * cfg.busBytes := Nat.mul_le_mul_right _ hdivlt
      _ = cfg.busBytes * q := Nat.mul_comm _ _
  refine and_congr_right fun hl => ?_
  rw [GenericPayload.byteAddr_eq, BitVec.toNat_ofNat]
  generalize gp.address.toNat / cfg.busBytes * cfg.busBytes = word at *
  generalize gp.address.toNat % cfg.busBytes = off at *
  rcases Nat.lt_or_ge (gp.address.toNat + i % gp.streamingWidth) (2 ^ 64) with hlt | hge
  · rw [Nat.mod_eq_of_lt hlt]
    omega
  · rw [Nat.mod_eq_sub_mod hge, Nat.mod_eq_of_lt (by omega)]
    omega

/-! ### One payload -/

theorem inBeat_iff_lt_wlen (hi : i < gp.dataLength) : InBeat cfg gp i ↔ i < wlen cfg gp := by
  have hoff := off_lt cfg gp.address
  rw [wlen_eq, InBeat]
  omega

/-- The lane from which byte `i` comes by the rotation. -/
theorem rotate_iff {off bus : ℕ} (hl : l < bus) (hi : off + i < bus) : (l + bus - off) % bus = i ↔ l = off + i := by
  rcases Nat.lt_or_ge l off with hlt | hge
  · rw [Nat.mod_eq_of_lt (by omega)]
    omega
  · rw [show l + bus - off = l - off + bus by omega, Nat.add_mod_right, Nat.mod_eq_of_lt (by omega)]
    omega

theorem writeRight_iff (hacc : Validate cfg gp = true) :
    WriteRight cfg gp ↔ gp.streamingWidth ≠ 0 ∧ ∀ i < gp.dataLength, gp.enabled i = true → InBeat cfg gp i := by
  have hlen : gp.dataLength ≤ cfg.busBytes := of_decide_eq_true (Bool.and_eq_true_iff.1 hacc).2
  constructor
  · intro h
    have hsw : gp.streamingWidth ≠ 0 := by
      intro h0
      obtain ⟨beat, hbeat, -⟩ := h fun _ => 0
      rw [prepareWbeat, if_pos h0] at hbeat
      cases hbeat
    refine ⟨hsw, fun i hi hen => (inBeat_iff_lt_wlen hi).2 ?_⟩
    -- a byte that is the only one that is not zero has to be found
    obtain ⟨beat, hbeat, -, hdata⟩ := h fun k => if k = i then 1 else 0
    rw [prepareWbeat, if_neg hsw, bitoffset_div] at hbeat
    obtain rfl := Option.some.inj hbeat
    obtain ⟨l, -, hl⟩ := hdata i hi hen
    simp only [if_true] at hl
    split at hl
    · rename_i hin
      split at hl
      · rename_i heq
        change _ ∧ l < _ + wlen cfg gp at hin
        omega
      · exact absurd hl (by decide)
    · exact absurd hl (by decide)
  · rintro ⟨hsw, hin⟩ data
    refine ⟨_, by rw [prepareWbeat, if_neg hsw, bitoffset_div], fun l hl => ?_, fun i hi hen => ?_⟩
    · simp only [Bool.and_eq_true, decide_eq_true_iff]
      constructor
      · rintro ⟨hlt, hen⟩
        replace hlt : (l + cfg.busBytes - gp.address.toNat % cfg.busBytes) % cfg.busBytes < wlen cfg gp := hlt
        generalize hj : (l + cfg.busBytes - gp.address.toNat % cfg.busBytes) % cfg.busBytes = j at hlt hen
        have hj' : j < gp.dataLength := Nat.lt_of_lt_of_le hlt (by rw [wlen_eq]; exact Nat.min_le_left _ _)
        obtain ⟨hbeat, hjsw⟩ := (inBeat_iff_lt_wlen hj').2 hlt
        have hlane := (rotate_iff hl hbeat).1 hj
        exact ⟨j, hj', hen, (onLane_iff (by omega)).2 ⟨hl, by rwa [Nat.mod_eq_of_lt hjsw]⟩⟩
      · rintro ⟨i, hi, hen, hlane⟩
        obtain ⟨hbeat, hlt⟩ := hin i hi hen
        have hl' := ((onLane_iff (by omega)).1 hlane).2
        rw [Nat.mod_eq_of_lt hlt] at hl'
        rw [(rotate_iff hl hbeat).2 hl']
        exact ⟨(inBeat_iff_lt_wlen hi).1 ⟨hbeat, hlt⟩, hen⟩
    · obtain ⟨hbeat, hlt⟩ := hin i hi hen
      have hwlen : i < wlen cfg gp := (inBeat_iff_lt_wlen hi).1 ⟨hbeat, hlt⟩
      refine ⟨gp.address.toNat % cfg.busBytes + i, (onLane_iff (by omega)).2 ⟨hbeat, by rw [Nat.mod_eq_of_lt hlt]⟩, ?_⟩
      dsimp only
      rw [if_pos ⟨by omega, Nat.add_lt_add_left hwlen _⟩, Nat.add_sub_cancel_left]

/-- One beat is enough for a payload that ends in the bus word. -/
theorem readResp_eq_some_iff {rdata data data' : ℕ → Byte} :
    readResp cfg gp data [rdata] 0 = some data' ↔
      gp.streamingWidth ≠ 0 ∧ gp.address.toNat % cfg.busBytes + gp.dataLength ≤ cfg.busBytes ∧
        (fun k => if k < gp.dataLength ∧ gp.enabled k = true then rdata (k + gp.address.toNat % cfg.busBytes) else data k) = data' := by
  have hoff := off_lt cfg gp.address
  rw [readResp, readBeat]
  by_cases hsw : gp.streamingWidth = 0
  · rw [if_pos hsw, Option.bind_none]
    exact iff_of_false (Option.some_ne_none _).symm fun h => h.1 hsw
  · rw [if_neg hsw, Option.bind_some]
    simp only [Nat.zero_mod, BitVec.add_zero, left_eq, bitoffset_div, Nat.zero_le, true_and, Nat.zero_add, Nat.sub_zero]
    by_cases hend : gp.address.toNat % cfg.busBytes + gp.dataLength ≤ cfg.busBytes
    · by_cases heq : cfg.busBytes - gp.address.toNat % cfg.busBytes ≤ gp.dataLength
      · rw [if_pos heq, if_pos (by omega), show cfg.busBytes - gp.address.toNat % cfg.busBytes = gp.dataLength by omega, Option.some.injEq]
        exact ⟨fun h => ⟨hsw, hend, h⟩, fun h => h.2.2⟩
      · rw [if_neg heq, if_pos (Nat.sub_self _), Option.some.injEq]
        exact ⟨fun h => ⟨hsw, hend, h⟩, fun h => h.2.2⟩
    · have hle : cfg.busBytes - gp.address.toNat % cfg.busBytes ≤ gp.dataLength := by omega
      rw [if_pos hle, if_neg (by omega)]
      exact iff_of_false (Option.some_ne_none _).symm fun h => hend h.2.1

theorem readRight_iff : ReadRight cfg gp ↔ gp.streamingWidth ≠ 0 ∧ gp.address.toNat % cfg.busBytes + gp.dataLength ≤ cfg.busBytes ∧
    ∀ i < gp.dataLength, gp.enabled i = true → i < gp.streamingWidth := by
  constructor
  · intro h
    obtain ⟨_, hdata, -⟩ := h (fun _ => 0) fun _ => 0
    obtain ⟨hsw, hend, -⟩ := readResp_eq_some_iff.1 hdata
    refine ⟨hsw, hend, fun i hi hen => ?_⟩
    -- the lane that is the only one that is not zero is the one of the byte
    obtain ⟨data', hdata, hbytes⟩ := h (fun l => if l = i + gp.address.toNat % cfg.busBytes then 1 else 0) fun _ => 0
    obtain ⟨-, -, hdata⟩ := readResp_eq_some_iff.1 hdata
    have hbyte := hbytes i
    rw [if_pos ⟨hi, hen⟩] at hbyte
    obtain ⟨l, hlane, hl⟩ := hbyte
    rw [← hdata] at hl
    dsimp only at hl
    rw [if_pos ⟨hi, hen⟩, if_pos rfl] at hl
    split at hl
    · rename_i heq
      have hl' := ((onLane_iff (by omega)).1 hlane).2
      have hmod := Nat.mod_lt i (Nat.pos_of_ne_zero hsw)
      omega
    · exact absurd hl (by decide)
  · rintro ⟨hsw, hend, hin⟩ rdata data
    refine ⟨_, readResp_eq_some_iff.2 ⟨hsw, hend, rfl⟩, fun i => ?_⟩
    split
    · rename_i hi
      exact ⟨i + gp.address.toNat % cfg.busBytes,
        (onLane_iff (by omega)).2 ⟨by omega, by rw [Nat.mod_eq_of_lt (hin i hi.1 hi.2), Nat.add_comm]⟩, rfl⟩
    · rfl

/-- **One payload**: what of it is carried. -/
theorem beatRight_iff (hacc : Validate cfg gp = true) :
    BeatRight cfg gp ↔ gp.streamingWidth ≠ 0 ∧ (∀ i < gp.dataLength, gp.enabled i = true → InBeat cfg gp i) ∧
      (gp.isRead = true → gp.address.toNat % cfg.busBytes + gp.dataLength ≤ cfg.busBytes) := by
  unfold BeatRight
  split
  · rename_i hread
    rw [readRight_iff]
    constructor
    · rintro ⟨hsw, hend, hin⟩
      exact ⟨hsw, fun i hi hen => ⟨by omega, hin i hi hen⟩, fun _ => hend⟩
    · rintro ⟨hsw, hin, hend⟩
      exact ⟨hsw, hend hread, fun i hi hen => (hin i hi hen).2⟩
  · rename_i hread
    rw [writeRight_iff hacc]
    exact ⟨fun ⟨hsw, hin⟩ => ⟨hsw, hin, fun h => absurd h hread⟩, fun ⟨hsw, hin, _⟩ => ⟨hsw, hin⟩⟩

/-! ### Behind the aligner -/

theorem boundary_ne_zero : cfg.aligner.maxAddressBoundary ≠ 0 := (by decide : 4 * 1024 ≠ 0)

/-- A naturally aligned stretch that is no longer than the bus lies in one word of it. -/
theorem inWord {len : ℕ} (h : Aligner.NaturallyAligned addr len) (hle : len ≤ cfg.busBytes) : addr.toNat % cfg.busBytes + len ≤ cfg.busBytes := by
  obtain ⟨k, hk, hdvd⟩ := h
  rcases Nat.le_total k cfg.log with hlog | hlog
  · obtain ⟨q, hq⟩ : 2 ^ k ∣ cfg.busBytes - addr.toNat % cfg.busBytes :=
      Nat.dvd_sub (pow_dvd_pow 2 hlog) ((Nat.dvd_mod_iff (pow_dvd_pow 2 hlog)).2 hdvd)
    have hlt := off_lt cfg addr
    rcases Nat.eq_zero_or_pos q with rfl | hpos
    · omega
    · have := Nat.le_mul_of_pos_right (2 ^ k) hpos
      omega
  · have h0 : addr.toNat % cfg.busBytes = 0 := Nat.mod_eq_zero_of_dvd ((pow_dvd_pow 2 hlog).trans hdvd)
    omega

/-- A chunk is no longer than its streaming width, if the payload has one. -/
theorem chunk_le_width {w pos : ℕ} (hsw : gp.streamingWidth ≠ 0) (hpos : pos < gp.dataLength) (hw : pos = 0 → w = gp.streamingWidth) :
    (cfg.aligner.chunk gp w pos).1 ≤ (cfg.aligner.chunk gp w pos).2 := by
  have hwidth : Aligner.streamingWidth gp = gp.streamingWidth := if_neg hsw
  simp only [Aligner.chunk, hwidth]
  split
  · exact Nat.le_refl _
  · rename_i hzero
    split
    · split
      · rename_i hvalid
        exact of_decide_eq_true (Bool.and_eq_true_iff.1 hvalid).2
      · exact Nat.le_refl _
    · rename_i hwhole
      have hwhole : gp.streamingWidth = gp.dataLength := by omega
      have h0 : pos = 0 := by
        rw [hwhole, Nat.mod_eq_of_lt hpos] at hzero
        omega
      dsimp only
      rw [hw h0]
      omega

/-- A part that starts a word or has a natural alignment. -/
theorem right_of_aligned (hpos : 0 < gp.dataLength) (hlen : gp.dataLength ≤ cfg.busBytes) (hsw : gp.dataLength ≤ gp.streamingWidth)
    (h : Aligner.NaturallyAligned gp.address gp.dataLength) : Validate cfg gp = true ∧ BeatRight cfg gp := by
  have hacc : Validate cfg gp = true := by simp [Validate, hlen, Nat.pos_iff_ne_zero.1 hpos]
  have hend := inWord h hlen
  exact ⟨hacc, (beatRight_iff hacc).2 ⟨by omega, fun i hi _ => ⟨by omega, by omega⟩, fun _ => hend⟩⟩

theorem right_of_mem_chop {ts : List (ℕ × GenericPayload)} {t : ℕ × GenericPayload} (hsw : gp.streamingWidth ≠ 0)
    (hts : cfg.aligner.chop gp gp.streamingWidth 0 = some ts) (ht : t ∈ ts) : Validate cfg t.2 = true ∧ BeatRight cfg t.2 := by
  obtain ⟨w, p, hp, hw, hpos, rfl⟩ := Aligner.mem_chop hts ht
  have hok := Aligner.chunk_ok (a := cfg.aligner) hp fun h0 => (hw h0).2
  have hrange := Aligner.inRange (a := cfg.aligner) (Nat.pos_of_ne_zero boundary_ne_zero) hok.range
  exact right_of_aligned hpos hrange.maxLen (chunk_le_width hsw hp fun h0 => (hw h0).2) (hrange.aligned rfl)

theorem right_of_fastPath (hsw : gp.streamingWidth ≠ 0) (h : cfg.aligner.FastPath gp) : Validate cfg gp = true ∧ BeatRight cfg gp := by
  obtain ⟨-, hlt, hlen, hwidth⟩ := h
  have hpos : 0 < cfg.aligner.maxAddrRange gp.address := Aligner.maxAddrRange_pos (Nat.pos_of_ne_zero boundary_ne_zero) cfg.busBytes_pos
  have hrange := Aligner.inRange (a := cfg.aligner) (Nat.pos_of_ne_zero boundary_ne_zero) (Nat.le_of_eq hlen)
  rw [Aligner.streamingWidth, if_neg hsw] at hwidth
  exact right_of_aligned (hlen ▸ hpos) (Nat.le_of_lt hlt) (Nat.le_of_eq hwidth.symm) (hrange.aligned rfl)

/-- Without a streaming width the first part has none either. -/
theorem not_right_of_zero {ts : List (ℕ × GenericPayload)} (hsw : gp.streamingWidth = 0) (hpos : 0 < gp.dataLength)
    (hts : cfg.aligner.bTransport gp = some ts) : ¬∀ t ∈ ts, Validate cfg t.2 = true ∧ BeatRight cfg t.2 := by
  intro h
  obtain ⟨t, ht, h0⟩ : ∃ t ∈ ts, t.2.streamingWidth = 0 := by
    rw [Aligner.bTransport, if_neg boundary_ne_zero] at hts
    split at hts
    · obtain rfl := Option.some.inj hts
      exact ⟨_, List.mem_singleton_self _, hsw⟩
    · split at hts
      · cases hts
      · rw [Aligner.chop, if_pos hpos] at hts
        dsimp only at hts
        split at hts
        · obtain ⟨l, -, rfl⟩ := Option.map_eq_some_iff.1 hts
          refine ⟨_, List.mem_cons_self, ?_⟩
          have hwidth : Aligner.streamingWidth gp = gp.dataLength := if_pos hsw
          simp only [Aligner.sub, Aligner.chunk, hwidth, Nat.zero_mod]
          rw [if_neg (fun h => h rfl), if_neg (fun h => h rfl)]
          exact hsw
        · cases hts
  obtain ⟨hacc, hright⟩ := h t ht
  exact ((beatRight_iff hacc).1 hright).1 h0

/-- **The data lanes, exactly.** -/
theorem lanes_right_iff (cfg : Config) (gp : GenericPayload) : LanesRight cfg gp ↔ LanesClear cfg gp := by
  unfold LanesRight LanesClear
  split
  · constructor
    · rintro ⟨ts, hts, -, h⟩
      refine ⟨?_, ?_⟩
      · by_contra hbad
        rw [not_or] at hbad
        rw [Aligner.bTransport, if_neg boundary_ne_zero, if_neg hbad.1, if_pos (by omega)] at hts
        cases hts
      · by_contra hbad
        exact not_right_of_zero (by omega) (by omega) hts h
    · rintro ⟨hbe, hsw⟩
      by_cases hfast : cfg.aligner.FastPath gp
      · obtain ⟨ts, hts, hacc, -⟩ := Aligner.bTransport_fast (a := cfg.aligner) (Nat.pos_of_ne_zero boundary_ne_zero) hfast
        have hlist : cfg.aligner.bTransport gp = some [(0, gp)] := by
          rw [Aligner.bTransport, if_neg boundary_ne_zero, if_pos hfast]
        obtain rfl := Option.some.inj (hlist.symm.trans hts)
        have hpos : 0 < cfg.aligner.maxAddrRange gp.address := Aligner.maxAddrRange_pos (Nat.pos_of_ne_zero boundary_ne_zero) cfg.busBytes_pos
        refine ⟨_, hts, hacc, fun t ht => ?_⟩
        rw [List.mem_singleton.1 ht]
        exact right_of_fastPath (hsw.resolve_left (hfast.2.2.1 ▸ Nat.pos_iff_ne_zero.1 hpos)) hfast
      · have hstart : cfg.aligner.bTransport gp = cfg.aligner.chop gp gp.streamingWidth 0 := by
          rw [Aligner.bTransport, if_neg boundary_ne_zero, if_neg hfast, if_neg (by have := hbe.resolve_left hfast; omega)]
        have hchop : ∃ l, cfg.aligner.chop gp gp.streamingWidth 0 = some l ∧ _ :=
          Aligner.chop_spec (Nat.pos_of_ne_zero boundary_ne_zero) cfg.busBytes_pos fun _ => rfl
        obtain ⟨ts, hts, hacc, -⟩ := hchop
        refine ⟨ts, hstart.trans hts, by rwa [List.range_eq_range'], fun t ht => ?_⟩
        rcases hsw with h0 | hsw
        · rw [Aligner.chop, if_neg (by omega)] at hts
          obtain rfl := Option.some.inj hts
          exact absurd ht List.not_mem_nil
        · exact right_of_mem_chop hsw hts ht
  · exact imp_congr_right beatRight_iff

/-- A read of two bytes from the last byte of a word of 32 bits waits for a second beat, without the aligner. -/
theorem not_lanes_right : ¬LanesRight ⟨2, false, by decide⟩ { command := .read, address := 3, dataLength := 2, streamingWidth := 2 } := by
  intro h
  have hacc : Validate ⟨2, false, by decide⟩ { command := .read, address := 3, dataLength := 2, streamingWidth := 2 } = true := by decide
  exact absurd (((beatRight_iff hacc).1 (h hacc)).2.2 rfl) (by decide)

end LibSystemCTLM.AxiLite
