import LibSystemCTLM.Ccix.Msg

/-!
# CCIX messages in TLPs

A message is made, wrapped in a TLP and extracted from its bytes (`transfer`). The header of the
TLP is read back (`header_created`), and a TLP has one message, which ends where the TLP does: so
what comes is what is extracted from the words of the message (`roundTrips_iff_of_extracted`).
-/

namespace LibSystemCTLM.Ccix

open Foundation

/-- A message is sent in a TLP, and extracted behind the messages that are already there. -/
def transfer (k : TLPHdr) (m : IMsg) (l : List IMsg) : Except Fault (List IMsg) := do
  let b ← createTLP k m
  TLPAssembler.extractCCIXMessages k b l

namespace Attr

/-- The attributes of a message of its type. -/
def part (a : Attr) : Attr :=
  if a.msgType = Msg.typeReq then
    { tgtID := a.tgtID, srcID := a.srcID, msgCredit := a.msgCredit, msgType := a.msgType, txnID := a.txnID, reqOp := a.reqOp
      reqAttr := a.reqAttr, secure := a.secure, qoS := a.qoS, user := a.user, respErr := a.respErr, poison0 := a.poison0, poison1 := a.poison1 }
  else if a.msgType = Msg.typeSnpReq then
    { tgtID := a.tgtID, srcID := a.srcID, msgCredit := a.msgCredit, msgType := a.msgType, txnID := a.txnID, snpCast := a.snpCast
      dataRet := a.dataRet, snpOp := a.snpOp, secure := a.secure, user := a.user, respErr := a.respErr, poison0 := a.poison0
      poison1 := a.poison1 }
  else if a.msgType = Msg.typeResp ∨ a.msgType = Msg.typeSnpResp then
    { tgtID := a.tgtID, srcID := a.srcID, msgCredit := a.msgCredit, msgType := a.msgType, txnID := a.txnID, respAttr := a.respAttr
      respOp := a.respOp, user := a.user, respErr := a.respErr, poison0 := a.poison0, poison1 := a.poison1 }
  else if a.msgType = Msg.typeMiscUnCredited then
    if a.miscOp = Msg.nop then
      { tgtID := a.tgtID, srcID := a.srcID, msgCredit := a.msgCredit, msgType := a.msgType, miscOp := a.miscOp }
    else
      { tgtID := a.tgtID, srcID := a.srcID, msgCredit := a.msgCredit, msgType := a.msgType, miscOp := a.miscOp, dataCredit := a.dataCredit
        reqCredit := a.reqCredit, miscCredit := a.miscCredit, snpCredit := a.snpCredit }
  else
    { tgtID := a.tgtID, srcID := a.srcID, msgCredit := a.msgCredit, msgType := a.msgType, miscOp := a.miscOp, miscCredit := a.miscCredit
      payloadSz := a.payloadSz, payload := fun i => if i < a.payloadSz then a.payload i else 0 }

end Attr

namespace IMsg

/-- Requests and snoop requests have an address. -/
def hasAddress (m : IMsg) : Bool := m.attr.msgType = Msg.typeReq || m.attr.msgType = Msg.typeSnpReq

/-- Requests and responses may have data. -/
def mayHaveData (m : IMsg) : Bool := m.attr.msgType = Msg.typeReq || m.attr.msgType = Msg.typeResp || m.attr.msgType = Msg.typeSnpResp

end IMsg

/-- What was sent has come. -/
structure Brought (m m' : IMsg) : Prop where
  attr : m'.attr.part = m.attr.part
  address : m.hasAddress → m'.address = m.address
  write : m.mayHaveData → m'.write = m.write
  data : m.mayHaveData → m.write → m'.dataLength = m.dataLength ∧ ∀ i < m.dataLength, m'.data i = m.data i ∧ m'.enabled i = m.enabled i

/-- A message comes back from its TLP, whatever other messages there are. -/
def RoundTrips (k : TLPHdr) (m : IMsg) : Prop := ∀ l, ∃ m', transfer k m l = .ok (l ++ [m']) ∧ Brought m m'

theorem ok_bind {α β : Type} (x : α) (f : α → Except Fault β) : (.ok x >>= f) = f x := rfl

theorem error_bind {α β : Type} (e : Fault) (f : α → Except Fault β) : (.error e >>= f) = .error e := rfl

theorem exists_of_bind {α β : Type} {x : Except Fault α} {f : α → Except Fault β} {r : β} (h : x >>= f = .ok r) :
    ∃ y, x = .ok y ∧ f y = .ok r := by
  cases x with
  | error e => cases h
  | ok y => exact ⟨y, rfl, h⟩

/-! ### Words -/

section Words

variable {fs : List (BitField × BitVec 32)} {f : BitField} {v w : BitVec 32} {ws : List (BitVec 32)}

theorem set_of_fits (hw : f.width ≤ 32) (hv : v.toNat < 2 ^ f.width) : set f v = .ok (v <<< f.shift) := by
  rw [set, if_pos ((and_not_fieldMask (by omega)).2 hv), and_fieldMask (by omega) hv]

theorem fits_of_set (hw : f.width ≤ 32) (h : set f v = .ok w) : v.toNat < 2 ^ f.width := by
  unfold set at h
  split at h
  · exact (and_not_fieldMask (by omega)).1 ‹_›
  · cases h

theorem word_of_fits (h : ∀ p ∈ fs, BitField.Fits p) : word fs = .ok (join fs) := by
  induction fs with
  | nil => rfl
  | cons p fs ih =>
    obtain ⟨f, v⟩ := p
    have hp : f.shift + f.width ≤ 32 ∧ v.toNat < 2 ^ f.width := h _ List.mem_cons_self
    rw [word, set_of_fits (by omega) hp.2, ih fun q hq => h q (List.mem_cons_of_mem _ hq)]
    rfl

theorem fits_of_word (hw : ∀ p ∈ fs, p.1.width ≤ 32) (h : word fs = .ok w) : ∀ p ∈ fs, p.2.toNat < 2 ^ p.1.width := by
  induction fs generalizing w with
  | nil =>
    intro p hp
    cases hp
  | cons p fs ih =>
    obtain ⟨f, v⟩ := p
    rw [word] at h
    cases hset : set f v with
    | error e =>
      rw [hset] at h
      cases h
    | ok r =>
      cases hrest : word fs with
      | error e =>
        rw [hset, hrest] at h
        cases h
      | ok r' =>
        intro q hq
        rcases List.mem_cons.1 hq with rfl | hq
        · exact fits_of_set (hw _ List.mem_cons_self) hset
        · exact ih (fun q hq => hw q (List.mem_cons_of_mem _ hq)) hrest q hq

/-- A field that is set to zero makes no difference. -/
theorem word_zero (l r : List (BitField × BitVec 32)) (f : BitField) : word (l ++ (f, 0) :: r) = word (l ++ r) := by
  induction l with
  | nil =>
    have hset : set f 0 = .ok 0 := by simp [set]
    rw [List.nil_append, List.nil_append, word, hset]
    cases hr : word r with
    | error e => rfl
    | ok v => exact congrArg Except.ok BitVec.zero_or
  | cons p l ih => rw [List.cons_append, List.cons_append, word, word, ih]

/-- A word has the fields. -/
def Carries (w : BitVec 32) (fs : List (BitField × BitVec 32)) : Prop := ∀ p ∈ fs, p.1.get w = p.2

theorem carries_join (hfit : ∀ p ∈ fs, BitField.Fits p) {L : List BitField} (hL : fs.map Prod.fst = L) (hapart : L.Pairwise BitField.Apart) :
    Carries (join fs) fs :=
  fun _ hp => get_join hfit (hL ▸ hapart) hp

theorem setMsgLen_of_lt (w : BitVec 32) (hl : ws.length < 31) :
    setMsgLen w ws = .ok ((w ||| BitVec.ofNat 32 (ws.length + 1) <<< IMsg.msgLen.shift) :: ws) := by
  have hlt : (BitVec.ofNat 32 (ws.length + 1)).toNat < 2 ^ IMsg.msgLen.width := by
    rw [BitVec.toNat_ofNat]
    show (ws.length + 1) % 2 ^ 32 < 2 ^ 5
    omega
  rw [setMsgLen, set_of_fits (by decide) hlt]
  rfl

/-- A word of fields that fit, and are apart, has them. -/
theorem word_ok (fs : List (BitField × BitVec 32)) {L : List BitField} (hfit : ∀ p ∈ fs, BitField.Fits p) (hL : fs.map Prod.fst = L) (hapart : L.Pairwise BitField.Apart) :
    ∃ w, word fs = .ok w ∧ Carries w fs := ⟨join fs, word_of_fits hfit, carries_join hfit hL hapart⟩

/-- The first word of a message, in which the length is set in the end. -/
theorem firstWord_ok {l r : List (BitField × BitVec 32)} {n : ℕ} (hn : n < 32) {L : List BitField}
    (hfit : ∀ p ∈ l ++ (IMsg.msgLen, BitVec.ofNat 32 n) :: r, BitField.Fits p) (hL : (l ++ (IMsg.msgLen, 0) :: r).map Prod.fst = L)
    (hapart : L.Pairwise BitField.Apart) : ∃ w₀ w, word (l ++ (IMsg.msgLen, 0) :: r) = .ok w₀ ∧
      Carries w (l ++ (IMsg.msgLen, BitVec.ofNat 32 n) :: r) ∧ ∀ ws, ws.length + 1 = n → setMsgLen w₀ ws = .ok (w :: ws) := by
  have hfit₀ : ∀ p ∈ l ++ (IMsg.msgLen, 0) :: r, BitField.Fits p := fun p hp => by
    rcases List.mem_append.1 hp with hl | hr
    · exact hfit p (List.mem_append_left _ hl)
    · rcases List.mem_cons.1 hr with rfl | hr
      · exact ⟨by decide, by decide⟩
      · exact hfit p (List.mem_append_right _ (List.mem_cons_of_mem _ hr))
  have hL' : (l ++ (IMsg.msgLen, BitVec.ofNat 32 n) :: r).map Prod.fst = L := by
    rw [← hL, List.map_append, List.map_append]
    rfl
  refine ⟨_, _, word_of_fits hfit₀, carries_join hfit hL' hapart, fun ws hws => ?_⟩
  rw [setMsgLen_of_lt _ (by omega), hws, join_or]

theorem getNext_bytesOf {k : ℕ} (h : ws[k]? = some w) : getNext (bytesOf ws) (4 * k) = .ok w := by
  rw [getNext, readWord_bytesOf, h]

end Words

/-! ### Extraction -/

section Extract

variable {b : List (BitVec 8)} {w e : BitVec 32} {ws : List (BitVec 32)} {m m' : IMsg} {n pos : ℕ} {k : TLPHdr}

theorem extractExtensions_none (h : IMsg.ext.get w = 0) : IMsg.extractExtensions b n w m pos = .ok (m, pos) := by
  cases n with
  | zero => rw [IMsg.extractExtensions, if_pos h]
  | succ n => rw [IMsg.extractExtensions, if_pos h]

theorem extractExtensions_one (h : IMsg.ext.get w ≠ 0) (hn : 0 < n) (hnext : getNext b pos = .ok e) (he : IMsg.ext.get e = 0) :
    IMsg.extractExtensions b n w m pos = .ok (IMsg.extractExtension e m, pos + 4) := by
  obtain ⟨n, rfl⟩ := Nat.exists_eq_add_of_lt hn
  rw [Nat.zero_add, IMsg.extractExtensions, if_neg h, hnext]
  exact extractExtensions_none he

/-- The message with the bytes from `pos` on as its data. -/
def withTail (b : List (BitVec 8)) (pos : ℕ) (m : IMsg) : IMsg :=
  { m with
    data := fun i => if i < b.length - pos then b.getD (pos + i) 0 else m.data i
    dataLength := b.length - pos
    write := true }

theorem getTailSize_eq (h : m.attr.msgLen.toNat = n) (hpos : pos ≤ 4 * n) : m.getTailSize pos = 4 * n - pos := by
  unfold IMsg.getTailSize
  omega

theorem parseTail_eq (hlen : b.length = 4 * m.attr.msgLen.toNat) (hpos : pos ≤ b.length) (h4 : pos % 4 = 0) :
    m.parseTail b true pos = if b.length = pos then .ok m else if b.length - pos ≤ cachelineSz then .ok (withTail b pos m)
      else .error .outside := by
  have hsize : m.getTailSize pos = b.length - pos := by
    rw [getTailSize_eq rfl (by omega), hlen]
  have hround : (b.length - pos + 3) / 4 * 4 = b.length - pos := by omega
  rw [IMsg.parseTail, hsize]
  by_cases hz : b.length = pos
  · rw [if_pos (by omega), if_pos hz]
  · rw [if_neg (by omega), if_neg hz, if_pos rfl, IMsg.parseData, hround]
    by_cases hfit : b.length - pos ≤ cachelineSz
    · rw [if_pos ⟨hfit, fun i hi => by omega⟩, if_pos hfit]
      rfl
    · rw [if_neg fun h => hfit h.1, if_neg hfit]
      rfl

/-- An extension changes neither the type nor the opcode. -/
theorem extractExtension_keeps (w : BitVec 32) (m : IMsg) : (IMsg.extractExtension w m).attr.msgType = m.attr.msgType ∧
    (IMsg.extractExtension w m).attr.reqOp = m.attr.reqOp ∧ (IMsg.extractExtension w m).attr.snpOp = m.attr.snpOp := by
  unfold IMsg.extractExtension
  split
  · exact ⟨rfl, rfl, rfl⟩
  · split
    · exact ⟨rfl, rfl, rfl⟩
    · split
      · exact ⟨rfl, rfl, rfl⟩
      · split <;> exact ⟨rfl, rfl, rfl⟩

theorem extractExtensions_keeps {p : ℕ} (h : IMsg.extractExtensions b n w m pos = .ok (m', p)) :
    m'.attr.msgType = m.attr.msgType ∧ m'.attr.reqOp = m.attr.reqOp ∧ m'.attr.snpOp = m.attr.snpOp := by
  induction n generalizing w m pos with
  | zero =>
    rw [IMsg.extractExtensions] at h
    split at h
    · obtain ⟨rfl, -⟩ := Prod.mk.inj (Except.ok.inj h)
      exact ⟨rfl, rfl, rfl⟩
    · cases h
  | succ n ih =>
    rw [IMsg.extractExtensions] at h
    split at h
    · obtain ⟨rfl, -⟩ := Prod.mk.inj (Except.ok.inj h)
      exact ⟨rfl, rfl, rfl⟩
    · obtain ⟨v, -, h⟩ := exists_of_bind h
      obtain ⟨h₁, h₂, h₃⟩ := ih h
      obtain ⟨k₁, k₂, k₃⟩ := extractExtension_keeps v m
      exact ⟨h₁.trans k₁, h₂.trans k₂, h₃.trans k₃⟩

theorem parseByteEnables_attr {p : ℕ} (h : m.parseByteEnables b n pos = .ok (m', p)) : m'.attr = m.attr := by
  unfold IMsg.parseByteEnables at h
  split at h
  · obtain ⟨rfl, -⟩ := Prod.mk.inj (Except.ok.inj h)
    rfl
  · cases h

theorem parseTail_attr {may : Bool} (h : m.parseTail b may pos = .ok m') : m'.attr = m.attr := by
  unfold IMsg.parseTail at h
  split at h
  · obtain rfl := Except.ok.inj h
    rfl
  · split at h
    · obtain ⟨m₁, h₁, h₂⟩ := exists_of_bind h
      unfold IMsg.parseData at h₁
      split at h₁
      · obtain rfl := Except.ok.inj h₁
        obtain rfl := Except.ok.inj h₂
        rfl
      · cases h₁
    · cases h

/-- The attributes of the header fit in it. -/
structure HeaderFits (a : Attr) : Prop where
  tgtID : a.tgtID.toNat < 2 ^ 6
  srcID : a.srcID.toNat < 2 ^ 6
  msgCredit : a.msgCredit.toNat < 2 ^ 6

/-! #### Values that fit -/

theorem toNat_widen {n : ℕ} (hn : n ≤ 32) (v : BitVec n) : (v.setWidth 32).toNat = v.toNat := by
  rw [BitVec.toNat_setWidth]
  exact Nat.mod_eq_of_lt (lt_of_lt_of_le v.isLt (Nat.pow_le_pow_right (by decide) hn))

theorem widen_back {n : ℕ} (hn : n ≤ 32) (v : BitVec n) : (v.setWidth 32).setWidth n = v := by
  apply BitVec.eq_of_toNat_eq
  rw [BitVec.toNat_setWidth, toNat_widen hn]
  exact Nat.mod_eq_of_lt v.isLt

theorem widen_byte (v : BitVec 8) : (v.setWidth 32).setWidth 8 = v := widen_back (by decide) v

theorem widen_half (v : BitVec 16) : (v.setWidth 32).setWidth 16 = v := widen_back (by decide) v

theorem fits_val {f : BitField} {v : BitVec 32} (hv : v.toNat < 2 ^ f.width) (hf : f.shift + f.width ≤ 32 := by decide) :
    BitField.Fits (f, v) := ⟨hf, hv⟩

theorem fits_widen {f : BitField} {n : ℕ} {v : BitVec n} (hv : v.toNat < 2 ^ f.width) (hf : f.shift + f.width ≤ 32 := by decide)
    (hn : n ≤ 32 := by decide) : BitField.Fits (f, v.setWidth 32) := ⟨hf, by rw [toNat_widen hn]; exact hv⟩

theorem fits_ofNat {f : BitField} (hn : n < 2 ^ f.width) (hf : f.shift + f.width ≤ 32 := by decide) : BitField.Fits (f, BitVec.ofNat 32 n) :=
  ⟨hf, lt_of_le_of_lt (by rw [BitVec.toNat_ofNat]; exact Nat.mod_le ..) hn⟩

theorem fits_ofBool {f : BitField} (b : Bool) (hf : f.shift + f.width ≤ 32 := by decide) (hw : 0 < f.width := by decide) : BitField.Fits (f, ofBool b) := by
  have hlt : (ofBool b).toNat < 2 ^ 1 := by cases b <;> decide
  exact ⟨hf, lt_of_lt_of_le hlt (Nat.pow_le_pow_right (by decide) hw)⟩

theorem fits_zero {f : BitField} (hf : f.shift + f.width ≤ 32 := by decide) : BitField.Fits (f, 0) := ⟨hf, Nat.two_pow_pos _⟩

/-- The attributes are read back from the header. -/
theorem header_created {a : Attr} (h : HeaderFits a) (hn : n < 2 ^ 7) : ∃ hdr w, k.create a n = .ok hdr ∧ hdr.length = k.size ∧
    hdr[k.size - 1]? = some w ∧ (TLPHdr.tgtID.get w).setWidth 8 = a.tgtID ∧ (TLPHdr.srcID.get w).setWidth 8 = a.srcID ∧
    (TLPHdr.msgCredit.get w).setWidth 8 = a.msgCredit := by
  have hcredit : BitField.Fits (TLPHdr.msgCredit, a.msgCredit.setWidth 32) := fits_widen h.msgCredit
  have htgt : BitField.Fits (TLPHdr.tgtID, a.tgtID.setWidth 32) := fits_widen h.tgtID
  have hsrc : BitField.Fits (TLPHdr.srcID, a.srcID.setWidth 32) := fits_widen h.srcID
  cases k with
  | opt =>
    let fs : List (BitField × BitVec 32) := [(TLPHdr.type, 0x1), (TLPHdr.msgCredit, a.msgCredit.setWidth 32), (TLPHdr.tc, 0x7),
      (TLPHdr.tgtID, a.tgtID.setWidth 32), (TLPHdr.srcID, a.srcID.setWidth 32), (TLPHdr.length, BitVec.ofNat 32 n)]
    have hfit : ∀ p ∈ fs, BitField.Fits p := by
      simp only [fs, List.forall_mem_cons]
      exact ⟨fits_ofNat (by decide), hcredit, fits_ofNat (by decide), htgt, hsrc, fits_ofNat hn,
        List.forall_mem_nil _⟩
    have hc := carries_join hfit rfl (by decide : List.Pairwise BitField.Apart
      [TLPHdr.type, TLPHdr.msgCredit, TLPHdr.tc, TLPHdr.tgtID, TLPHdr.srcID, TLPHdr.length])
    refine ⟨[join fs], join fs, ?_, rfl, rfl, ?_, ?_, ?_⟩
    · rw [TLPHdr.create, word_of_fits hfit]
      rfl
    · rw [hc (TLPHdr.tgtID, a.tgtID.setWidth 32) (by simp [fs]), widen_byte]
    · rw [hc (TLPHdr.srcID, a.srcID.setWidth 32) (by simp [fs]), widen_byte]
    · rw [hc (TLPHdr.msgCredit, a.msgCredit.setWidth 32) (by simp [fs]), widen_byte]
  | comp =>
    let fs : List (BitField × BitVec 32) := [(TLPHdr.msgCredit, a.msgCredit.setWidth 32), (TLPHdr.tgtID, a.tgtID.setWidth 32),
      (TLPHdr.srcID, a.srcID.setWidth 32)]
    have hfit : ∀ p ∈ fs, BitField.Fits p := by
      simp only [fs, List.forall_mem_cons]
      exact ⟨hcredit, htgt, hsrc, List.forall_mem_nil _⟩
    have hfirst : ∀ p ∈ [(TLPHdr.compFmt, 0x3), (TLPHdr.compType, 0x12), (TLPHdr.tc, 0x7), (TLPHdr.compLength, BitVec.ofNat 32 n)],
        BitField.Fits p := by
      simp only [List.forall_mem_cons]
      exact ⟨fits_ofNat (by decide), fits_ofNat (by decide), fits_ofNat (by decide),
        fits_ofNat (lt_trans hn (by decide)), List.forall_mem_nil _⟩
    have hcode : ∀ p ∈ [(TLPHdr.msgCode, 0x7f)], BitField.Fits p := by
      simp only [List.forall_mem_cons]
      exact ⟨fits_ofNat (by decide), List.forall_mem_nil _⟩
    have hc := carries_join hfit rfl (by decide : List.Pairwise BitField.Apart [TLPHdr.msgCredit, TLPHdr.tgtID, TLPHdr.srcID])
    refine ⟨[join [(TLPHdr.compFmt, 0x3), (TLPHdr.compType, 0x12), (TLPHdr.tc, 0x7), (TLPHdr.compLength, BitVec.ofNat 32 n)],
      join [(TLPHdr.msgCode, 0x7f)], 0, join fs], join fs, ?_, rfl, rfl, ?_, ?_, ?_⟩
    · rw [TLPHdr.create, word_of_fits hfirst, word_of_fits hcode, word_of_fits hfit]
      rfl
    · rw [hc (TLPHdr.tgtID, a.tgtID.setWidth 32) (by simp [fs]), widen_byte]
    · rw [hc (TLPHdr.srcID, a.srcID.setWidth 32) (by simp [fs]), widen_byte]
    · rw [hc (TLPHdr.msgCredit, a.msgCredit.setWidth 32) (by simp [fs]), widen_byte]

/-- The message that is extracted from the words of one that was made. -/
def extracted (m : IMsg) (ws : List (BitVec 32)) : Except Fault IMsg :=
  TLPAssembler.extractCCIXMessage m.attr.tgtID m.attr.srcID m.attr.msgCredit (bytesOf ws)

/-- A message in a TLP is extracted from its words, and set up. -/
theorem transfer_of_created (h : HeaderFits m.attr) (hc : createMsg m = .ok ws) (hpos : 0 < ws.length) (hlt : ws.length < 32) (l : List IMsg) :
    ∃ n, transfer k m l = extracted m ws >>= fun m' => TLPAssembler.setup l m' >>= fun m' =>
      TLPAssembler.extractFrom m.attr.tgtID m.attr.srcID n 0 ((bytesOf ws).drop (4 * m'.attr.msgLen.toNat)) (l ++ [m']) := by
  obtain ⟨hdr, w, hhdr, hsize, hw, htgt, hsrc, hcredit⟩ := header_created (k := k) h (show ws.length < 2 ^ 7 by omega)
  have hlen : (bytesOf (hdr ++ ws)).length = 4 * k.size + 4 * ws.length := by
    rw [length_bytesOf, List.length_append, hsize, Nat.mul_add]
  have hdrop : (bytesOf (hdr ++ ws)).drop (4 * k.size) = bytesOf ws := by
    rw [bytesOf_append, List.drop_left' (by rw [length_bytesOf, hsize])]
  have hword : (hdr ++ ws)[k.size - 1]? = some w := by
    rw [List.getElem?_append_left (by rw [hsize]; cases k <;> decide), hw]
  obtain ⟨n, hn⟩ : ∃ n, (bytesOf (hdr ++ ws)).length = n + 1 := ⟨4 * k.size + 4 * ws.length - 1, by omega⟩
  obtain ⟨c, l', hcons⟩ : ∃ c l', bytesOf ws = c :: l' := List.exists_cons_of_length_pos (by rw [length_bytesOf]; omega)
  refine ⟨n, ?_⟩
  rw [transfer, createTLP, hc]
  show (k.create m.attr ws.length >>= fun hdr => pure (bytesOf (hdr ++ ws))) >>= _ = _
  rw [hhdr]
  show TLPAssembler.extractCCIXMessages k (bytesOf (hdr ++ ws)) l = _
  rw [TLPAssembler.extractCCIXMessages, getNext_bytesOf hword]
  show TLPAssembler.extractFrom _ _ _ _ _ l = _
  rw [hdrop, htgt, hsrc, hcredit, hn, extracted, hcons]
  rfl

/-- **A message that is extracted comes back if it is what was sent.** -/
theorem roundTrips_iff_of_extracted (h : HeaderFits m.attr) (hc : createMsg m = .ok ws) (hpos : 0 < ws.length) (hlt : ws.length < 32)
    (he : extracted m ws = .ok m') (hs : ∀ l, TLPAssembler.setup l m' = .ok m') (hl : m'.attr.msgLen.toNat = ws.length) :
    RoundTrips k m ↔ Brought m m' := by
  have htransfer : ∀ l, transfer k m l = .ok (l ++ [m']) := fun l => by
    obtain ⟨n, hn⟩ := transfer_of_created (k := k) h hc hpos hlt l
    rw [hn, he]
    show (TLPAssembler.setup l m' >>= _) = _
    rw [hs l]
    show TLPAssembler.extractFrom _ _ _ _ _ _ = _
    rw [hl, List.drop_eq_nil_of_le (by rw [length_bytesOf])]
    cases n <;> rfl
  constructor
  · intro hr
    obtain ⟨m'', ht, hb⟩ := hr []
    rw [htransfer] at ht
    obtain rfl : m' = m'' := by simpa using ht
    exact hb
  · exact fun hb l => ⟨m', htransfer l, hb⟩

/-- A message that cannot be made, extracted or set up does not come back. -/
theorem not_roundTrips_of_error (h : HeaderFits m.attr) (hc : createMsg m = .ok ws) (hpos : 0 < ws.length) (hlt : ws.length < 32)
    (he : ∀ m', extracted m ws = .ok m' → ∃ f, TLPAssembler.setup [] m' = .error f) : ¬ RoundTrips k m := by
  intro hr
  obtain ⟨m', ht, -⟩ := hr []
  obtain ⟨n, hn⟩ := transfer_of_created (k := k) h hc hpos hlt []
  rw [hn] at ht
  cases hx : extracted m ws with
  | error f =>
    rw [hx] at ht
    cases ht
  | ok m'' =>
    obtain ⟨f, hf⟩ := he m'' hx
    rw [hx] at ht
    change (TLPAssembler.setup [] m'' >>= _) = _ at ht
    rw [hf] at ht
    cases ht

theorem not_roundTrips_of_create {f : Fault} (hc : createMsg m = .error f) : ¬ RoundTrips k m := by
  intro hr
  obtain ⟨m', ht, -⟩ := hr []
  rw [transfer, createTLP, hc] at ht
  cases ht

end Extract

end LibSystemCTLM.Ccix
