import LibSystemCTLM.Chi.FlitRoundTrip

/-!
# Data in several flits

A `TxChannel` asks the `DatPkt` at its head for flits until it is `Done` (`transmit`); the receiver
parses each flit and copies its data and its byte enables to where its `DataID` says (`copyData`).

A second flit is never made, since `m_pos` is not reset and the assertion at the head of
`CreateFlit` fails; so that what is transmitted is put together again exactly if it is no longer
than a flit (`reassembles_iff`). And `SetData` always reads a byte too many, which with a single
flit is one past the end of the data (`not_segments`).
-/

namespace LibSystemCTLM.Chi

open Foundation

/-- `CACHELINE_SZ`. -/
def cachelineSz : ℕ := 64

/-- The flits of a data packet, at most `n`, until it is `Done`. -/
def transmit (u : Overlong) (c : Config) (p : DatPkt) : ℕ → DatState → Except FlitFault (List Bits × DatState)
  | 0, s => .ok ([], s)
  | n + 1, s =>
    if s.flitDone then .ok ([], s)
    else do
      let (flit, s) ← p.createFlit u c s
      let (l, s) ← transmit u c p n s
      return (flit :: l, s)

/-- `m_data` and `m_byteEnable` of the receiver. -/
structure Buffer where
  data : ℕ → BitVec 8
  byteEnable : ℕ → BitVec 8

/-- `ReqTxn::CopyData`. -/
def copyData (b : Buffer) (q : DatPkt) : Buffer :=
  let offset := q.dataID.toNat * q.dataLength
  -- `unsigned int max_len = CACHELINE_SZ - offset`
  let len := if offset ≤ cachelineSz then min q.dataLength (cachelineSz - offset) else q.dataLength
  { data := fun i => if offset ≤ i ∧ i < offset + len then if q.enabled (i - offset) then q.data (i - offset) else 0 else b.data i
    byteEnable := fun i => if offset ≤ i ∧ i < offset + len then if q.enabled (i - offset) then byteEnabled else 0 else b.byteEnable i }

/-- What the receiver has of the flits. -/
def reassemble (u : Overlong) (c : Config) (flits : List Bits) : Buffer :=
  flits.foldl (fun b flit => copyData b (DatPkt.parse u c flit 0).1) ⟨fun _ => 0, fun _ => 0⟩

/-- The flits have consecutive numbers, and the receiver has the data and the byte enables. -/
def Reassembles (u : Overlong) (c : Config) (p : DatPkt) : Prop :=
  ∃ n flits s, transmit u c p n {} = .ok (flits, s) ∧ s.flitDone = true ∧
    (∀ k flit, flits[k]? = some flit → (DatPkt.parse u c flit 0).1.dataID.toNat = k) ∧
    ∀ i < p.dataLength, (reassemble u c flits).byteEnable i = (if p.enabled i then byteEnabled else 0) ∧
      (reassemble u c flits).data i = if p.enabled i then p.data i else 0

/-- Every flit reads bytes of the data only. -/
def ReadsData (c : Config) (p : DatPkt) : Prop := ∀ i ∈ p.dataReads c, i < p.dataLength

/-- The data arrives, and no byte is read past its end. -/
def Segments (u : Overlong) (c : Config) (p : DatPkt) : Prop := Reassembles u c p ∧ ReadsData c p

section Segment

variable {u : Overlong} {c : Config} {p : DatPkt} {n : ℕ} {s s' : DatState} {flits : List Bits}

/-- **There is no second flit.** -/
theorem flits_eq_of_transmit (h : transmit u c p n s = .ok (flits, s')) (hdone : s'.flitDone = true) (hstart : s.flitDone = false) :
    ∃ flit, p.createFlit u c s = .ok (flit, s') ∧ flits = [flit] := by
  cases n with
  | zero =>
    obtain ⟨-, rfl⟩ := Prod.mk.inj (Except.ok.inj h)
    rw [hstart] at hdone
    cases hdone
  | succ n =>
    rw [transmit, hstart, if_neg Bool.false_ne_true] at h
    cases hf : p.createFlit u c s with
    | error e =>
      rw [hf] at h
      cases h
    | ok r =>
      obtain ⟨flit, s₁⟩ := r
      rw [hf] at h
      have hc := created_of_ok hf
      cases hd : s₁.flitDone with
      | true =>
        have hrest : transmit u c p n s₁ = .ok ([], s₁) := by
          cases n with
          | zero => rfl
          | succ n => rw [transmit, hd, if_pos rfl]
        change (transmit u c p n s₁ >>= fun x => pure (flit :: x.1, x.2)) = _ at h
        rw [hrest] at h
        obtain ⟨rfl, rfl⟩ := Prod.mk.inj (Except.ok.inj h)
        exact ⟨flit, rfl, rfl⟩
      | false =>
        exfalso
        have hend : s₁.pos = DatPkt.flitWidth c := by rw [hc.next]
        have hpos : s₁.pos ≠ 0 := by
          rw [hend, DatPkt.flitWidth]
          omega
        change (transmit u c p n s₁ >>= fun x => pure (flit :: x.1, x.2)) = _ at h
        cases n with
        | zero =>
          obtain ⟨-, rfl⟩ := Prod.mk.inj (Except.ok.inj h)
          rw [hd] at hdone
          cases hdone
        | succ n =>
          rw [transmit, hd, if_neg Bool.false_ne_true, DatPkt.createFlit, if_pos hpos] at h
          cases h

theorem Reassembles.dataLength_le (h : Reassembles u c p) : p.dataLength ≤ c.dataBytes := by
  obtain ⟨n, flits, s, ht, hdone, -⟩ := h
  obtain ⟨flit, hf, -⟩ := flits_eq_of_transmit ht hdone rfl
  rw [(created_of_ok hf).next] at hdone
  have hlen : p.dataLength ≤ 0 + c.dataBytes := of_decide_eq_true hdone
  omega

/-- The first flit is copied to the head of the line. -/
theorem copyData_first {b : Buffer} {q : DatPkt} {i : ℕ} (hid : q.dataID = 0) (hi : i < min q.dataLength cachelineSz) :
    (copyData b q).byteEnable i = (if q.enabled i then byteEnabled else 0) ∧ (copyData b q).data i = if q.enabled i then q.data i else 0 := by
  have hoff : q.dataID.toNat * q.dataLength = 0 := by rw [hid]; exact Nat.zero_mul _
  have hin : 0 ≤ i ∧ i < 0 + min q.dataLength cachelineSz := by omega
  simp only [copyData, hoff, if_pos (Nat.zero_le cachelineSz), if_pos hin, Nat.sub_zero, and_self]

/-- One flit has all of it, and the line gets its bytes. -/
theorem reassembles_of_room (h : p.Declared c) (hline : p.dataLength ≤ cachelineSz) (hlen : p.dataLength ≤ c.dataBytes)
    (hroom : p.dataLength < c.dataBytes ∨ 8 ≤ c.dataCheckWidth + c.poisonWidth) : Reassembles u c p := by
  obtain ⟨flit, s', hf⟩ := exists_createFlit (u := u) (s := {}) rfl hroom
  have hc := created_of_ok hf
  have hdone : s'.flitDone = true := by
    rw [hc.next]
    exact decide_eq_true (by show p.dataLength ≤ 0 + c.dataBytes; omega)
  obtain ⟨sl, hp, hdata⟩ := parse_of_created h (by simp) hc
  have ht : transmit u c p 1 {} = .ok ([flit], s') := by
    rw [transmit, if_neg Bool.false_ne_true, hf]
    rfl
  have hid : (received u c p 0 sl).dataID = 0 := by simp [received]
  refine ⟨1, [flit], s', ht, hdone, fun k f hk => ?_, fun i hi => ?_⟩
  · cases k with
    | zero =>
      obtain rfl : flit = f := Option.some.inj hk
      rw [hp, hid]
      rfl
    | succ k => cases hk
  · have hbytes : i < min p.dataLength c.dataBytes := by omega
    have hen : (received u c p 0 sl).enabled i = p.enabled i := by
      rw [enabled_received (s := {}) (by omega), enabled_byteEnableSlot hi]
    have hcopy : reassemble u c [flit] = copyData ⟨fun _ => 0, fun _ => 0⟩ (received u c p 0 sl) := by
      show copyData _ (DatPkt.parse u c flit 0).1 = _
      rw [hp]
    have hrd : (received u c p 0 sl).data i = p.data i := hdata i hbytes
    have hin : i < min (received u c p 0 sl).dataLength cachelineSz := by
      show i < min c.dataBytes cachelineSz
      omega
    have hb := copyData_first (b := ⟨fun _ => 0, fun _ => 0⟩) hid hin
    rwa [hen, hrd, ← hcopy] at hb

/-- **A data packet is never transmitted as it should be.** -/
theorem not_segments (u : Overlong) (c : Config) (p : DatPkt) : ¬ Segments u c p := by
  rintro ⟨hr, hreads⟩
  have hlen := hr.dataLength_le
  have hlast := hreads (min p.dataLength c.dataBytes) (List.mem_range.2 (Nat.lt_succ_self _))
  omega

end Segment

/-- The data of a line, as a home node sends it. -/
def lineData : DatPkt where
  qoS := 0
  tgtID := 3
  srcID := 20
  txnID := 1
  homeNID := 20
  opcode := 4
  respErr := 0
  resp := 2
  fwdState_DataPull_DataSource := 0
  dbid := 7
  ccid := 0
  dataID := 0
  traceTag := false
  rsvdc := 0
  dataCheck := 0
  poison := 0
  data := fun i => BitVec.ofNat 8 i
  dataLength := 64
  byteEnable := fun _ => 0
  byteEnableLength := 0

/-- **A line does not get over a bus of 128 bits**, the first of whose four flits is the last. -/
theorem not_segments_lineData :
    ¬ Segments x86 { defaultConfig with dataBytes := 16, dataBytes_pos := by decide } lineData := by
  rintro ⟨hr, -⟩
  exact absurd hr.dataLength_le (by decide)

end LibSystemCTLM.Chi
