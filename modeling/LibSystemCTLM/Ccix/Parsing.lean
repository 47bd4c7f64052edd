import LibSystemCTLM.Ccix.RoundTrip
import Mathlib.Logic.Relation

/-!
# Parsing the messages of a TLP

`ExtractCCIXMessages` goes over the bytes of a TLP, a message in a pass, and on by the length in
the attributes of the message. These bytes came over the link, and nothing of them is checked
before they are used. What a pass needs of the bytes is said here (`MsgFits`), for the extensions
(`extEnd`), the fields, the byte enables and the data (`TailFits`) of each type of message.

A TLP is parsed, or reported as invalid, exactly if each message of it has what it needs, is not
without a length, and if it is chained is as long as the one before it (`consumed_iff_formed`): its
own length is lost when the attributes are copied.
-/

namespace LibSystemCTLM.Ccix

open Foundation Relation

/-- The code goes on to the end, or reports an error. -/
def Tolerated {α : Type} (r : Except Fault α) : Prop := ∀ f, r = .error f → f = .reported

section Tolerated

variable {α β : Type} {x : Except Fault α} {f : α → Except Fault β}

@[simp] theorem tolerated_ok (a : α) : Tolerated (.ok a : Except Fault α) := fun _ h => by cases h

@[simp] theorem tolerated_error (f : Fault) : Tolerated (.error f : Except Fault α) ↔ f = .reported :=
  ⟨fun h => h f rfl, fun h _ hf => (Except.error.inj hf).symm.trans h⟩

theorem tolerated_bind : Tolerated (x >>= f) ↔ Tolerated x ∧ ∀ a, x = .ok a → Tolerated (f a) := by
  cases x with
  | ok a =>
    rw [ok_bind]
    exact ⟨fun h => ⟨tolerated_ok a, fun _ ha => Except.ok.inj ha ▸ h⟩, fun h => h.2 a rfl⟩
  | error e =>
    rw [error_bind, tolerated_error, tolerated_error]
    exact ⟨fun h => ⟨h, fun _ ha => by cases ha⟩, And.left⟩

end Tolerated

/-! ### The loop -/

/-- What `ExtractCCIXMessages` has at the head of its loop. -/
structure Loop where
  msgCredit : BitVec 8
  pos : ℕ
  msgs : List IMsg

namespace TLPAssembler

section Pass

variable (tgtID srcID : BitVec 8) (b : List (BitVec 8))

/-- One pass of the loop. -/
def pass (s : Loop) : Except Fault Loop := do
  let m ← extractCCIXMessage tgtID srcID s.msgCredit (b.drop s.pos)
  let m ← setup s.msgs m
  return ⟨0, s.pos + 4 * m.attr.msgLen.toNat, s.msgs ++ [m]⟩

/-- The loop gets on, by one pass. -/
def Passes (s s' : Loop) : Prop := s.pos < b.length ∧ pass tgtID srcID b s = .ok s'

/-- The loop of `extractFrom` makes its passes until the end. -/
theorem extractFrom_pass (n : ℕ) {s : Loop} (h : s.pos < b.length) : extractFrom tgtID srcID (n + 1) s.msgCredit (b.drop s.pos) s.msgs =
    pass tgtID srcID b s >>= fun s' => extractFrom tgtID srcID n s'.msgCredit (b.drop s'.pos) s'.msgs := by
  obtain ⟨a, l, hb⟩ := List.exists_cons_of_length_pos (l := b.drop s.pos) (by rw [List.length_drop]; omega)
  have hcons : extractFrom tgtID srcID (n + 1) s.msgCredit (a :: l) s.msgs =
      extractCCIXMessage tgtID srcID s.msgCredit (a :: l) >>= fun m => setup s.msgs m >>= fun m =>
        extractFrom tgtID srcID n 0 ((a :: l).drop (4 * m.attr.msgLen.toNat)) (s.msgs ++ [m]) := rfl
  rw [pass, hb, hcons, ← hb]
  cases extractCCIXMessage tgtID srcID s.msgCredit (b.drop s.pos) with
  | error f => rfl
  | ok m =>
    rw [ok_bind, ok_bind]
    cases setup s.msgs m with
    | error f => rfl
    | ok m' =>
      show extractFrom _ _ _ _ _ _ = extractFrom _ _ _ _ _ _
      rw [List.drop_drop]

end Pass

/-- The header of a TLP says what its messages begin with. -/
def start (k : TLPHdr) (w : BitVec 32) (l : List IMsg) : Loop := ⟨(TLPHdr.msgCredit.get w).setWidth 8, 4 * k.size, l⟩

/-- The passes behind the header `w` of a TLP. -/
def PassesOf (w : BitVec 32) (b : List (BitVec 8)) : Loop → Loop → Prop :=
  Passes ((TLPHdr.tgtID.get w).setWidth 8) ((TLPHdr.srcID.get w).setWidth 8) b

/-- The length of the message in front, as it was received, in bytes. -/
def receivedLen (b : List (BitVec 8)) : ℕ := (readWord b 0).elim 0 fun w => 4 * (IMsg.msgLen.get w).toNat

/-- **A TLP is consumed**: its messages are extracted or an error is reported, and every pass gets on by the length
of the message as it was received. -/
def Consumed (k : TLPHdr) (b : List (BitVec 8)) (l : List IMsg) : Prop :=
  Tolerated (extractCCIXMessages k b l) ∧ ∀ w, getNext b (4 * (k.size - 1)) = .ok w → ∀ s s', ReflTransGen (PassesOf w b) (start k w l) s →
    PassesOf w b s s' → s'.pos = s.pos + receivedLen (b.drop s.pos)

end TLPAssembler

/-! ### What a message needs of its bytes -/

/-- What the first word of a message says. -/
def header (w : BitVec 32) : Attr where
  msgType := (IMsg.msgType.get w).setWidth 8
  msgLen := (IMsg.msgLen.get w).setWidth 8
  reqOp := (MsgReq.reqOp.get w).setWidth 8
  snpOp := (MsgSnpReq.snpOp.get w).setWidth 8
  miscOp := (getField 16 3 w).setWidth 8

/-- Where the extensions end that begin at `pos`, behind the word `w`. -/
def extEnd (b : List (BitVec 8)) : ℕ → BitVec 32 → ℕ → Option ℕ
  | 0, w, pos => if IMsg.ext.get w = 0 then some pos else none
  | n + 1, w, pos => if IMsg.ext.get w = 0 then some pos else (readWord b pos).bind fun w => extEnd b n w (pos + 4)

/-- What is left of a message of `len` words at `pos`, as `GetTailSize` has it. -/
def tailSize (len : BitVec 8) (pos : ℕ) : ℕ := (4 * len.toNat + 2 ^ 32 - pos) % 2 ^ 32

/-- There is no data, or there may be some and it is in the bytes and no more than a cacheline. -/
def TailFits (b : List (BitVec 8)) (may : Bool) (len : BitVec 8) (pos : ℕ) : Prop :=
  tailSize len pos = 0 ∨ may = true ∧ tailSize len pos ≤ cachelineSz ∧ pos + tailSize len pos ≤ b.length

/-- More than a cacheline is byte enables and data. -/
def LongTailFits (b : List (BitVec 8)) (len : BitVec 8) (pos : ℕ) : Prop :=
  if tailSize len pos > cachelineSz then pos + 8 ≤ b.length ∧ TailFits b true len (pos + 8) else TailFits b true len pos

section Fits

variable (b : List (BitVec 8)) (w : BitVec 32)

/-- The fields of a request that is not chained, and what is behind them. `w₁` is the first of its words behind the extensions. -/
def ReqBodyFits (e : ℕ) (w₁ : BitVec 32) : Prop :=
  (∃ w₂, readWord b (e + 4) = some w₂) ∧
  if MsgReq.hasByteEnables (header w) then
    ∀ n, MsgReq.getSize { reqAttr := (MsgReq.reqAttr.get w₁).setWidth 8 } = .ok n →
      e + 8 + (n - 1) / 8 < b.length ∧ TailFits b true (header w).msgLen (e + 8 + beSkip n)
  else TailFits b (MsgReq.isWrite (header w) || MsgReq.isAtomic (header w)) (header w).msgLen (e + 8)

/-- A request. -/
def ReqFits : Prop :=
  ∃ e w₁, extEnd b b.length w 4 = some e ∧ readWord b e = some w₁ ∧
    if MsgReq.isReqChain (header w) then LongTailFits b (header w).msgLen (e + 4) else ReqBodyFits b w e w₁

/-- A snoop request. -/
def SnpFits : Prop :=
  ∃ e w₁, extEnd b b.length w 4 = some e ∧ readWord b e = some w₁ ∧ (MsgSnpReq.isSnpReqChain (header w) ∨ ∃ w₂, readWord b (e + 4) = some w₂)

/-- A response. -/
def RspFits : Prop := ∃ e, extEnd b b.length w 4 = some e ∧ LongTailFits b (header w).msgLen e

/-- A message of any type has what it needs. -/
def MsgFits : Prop :=
  if (header w).msgType = Msg.typeReq then ReqFits b w
  else if (header w).msgType = Msg.typeSnpReq then SnpFits b w
  else if (header w).msgType = Msg.typeResp ∨ (header w).msgType = Msg.typeSnpResp then RspFits b w
  else if (header w).msgType = Msg.typeMiscUnCredited then
    if (header w).miscOp = Msg.creditGrant ∨ (header w).miscOp = Msg.creditReturn then 8 ≤ b.length else True
  else if (header w).msgType = Msg.typeMiscCredited then
    tailSize (header w).msgLen 4 + 2 ≤ maxDataSz ∧ 4 + tailSize (header w).msgLen 4 ≤ b.length
  else True

/-- A request is refused for the size it gives. -/
def ReqRefused : Prop :=
  MsgReq.isReqChain (header w) = false ∧ MsgReq.hasByteEnables (header w) = true ∧ ∃ e w₁, extEnd b b.length w 4 = some e ∧
    readWord b e = some w₁ ∧ MsgReq.getSize { reqAttr := (MsgReq.reqAttr.get w₁).setWidth 8 } = .error .reported

/-- A message is refused for its size, or as of no type there is. -/
def Refused : Prop :=
  if (header w).msgType = Msg.typeReq then ReqRefused b w
  else if (header w).msgType = Msg.typeSnpReq ∨ (header w).msgType = Msg.typeResp ∨ (header w).msgType = Msg.typeSnpResp then False
  else if (header w).msgType = Msg.typeMiscUnCredited then
    (header w).miscOp ≠ Msg.nop ∧ (header w).miscOp ≠ Msg.creditGrant ∧ (header w).miscOp ≠ Msg.creditReturn
  else (header w).msgType ≠ Msg.typeMiscCredited

end Fits

/-- The type of the message before that a chained one needs. -/
def chainOf (a : Attr) : Option (BitVec 8) :=
  if a.msgType = Msg.typeReq ∧ MsgReq.isReqChain a then some Msg.typeReq
  else if MsgSnpReq.isSnpReqChain a then some Msg.typeSnpReq
  else none

/-! ### Extracting a message -/

/-- What is kept of the first word to the end. -/
def Keeps (w : BitVec 32) (a : Attr) : Prop := a.msgType = (header w).msgType ∧ a.msgLen = (header w).msgLen ∧ chainOf a = chainOf (header w)

/-- What extracting a message comes to. -/
structure Extraction (w : BitVec 32) (r : Except Fault IMsg) (fits refused : Prop) : Prop where
  tolerated : Tolerated r ↔ fits
  reported : r = .error .reported → refused
  kept : ∀ m, r = .ok m → ¬ refused ∧ Keeps w m.attr

section Extraction

variable {b : List (BitVec 8)} {w : BitVec 32} {m m' : IMsg} {n pos e : ℕ} {fits refused : Prop} {may : Bool}

theorem Extraction.fault {f : Fault} (hf : f ≠ .reported) (h : ¬ fits) : Extraction w (.error f) fits refused where
  tolerated := by rw [tolerated_error]; exact iff_of_false hf h
  reported := fun hr => absurd (Except.error.inj hr) hf
  kept := fun _ hm => by cases hm

theorem Extraction.report (h : fits) (hr : refused) : Extraction w (.error .reported) fits refused where
  tolerated := by rw [tolerated_error]; exact iff_of_true rfl h
  reported := fun _ => hr
  kept := fun _ hm => by cases hm

theorem Extraction.success (h : fits) (hr : ¬ refused) (hk : Keeps w m.attr) : Extraction w (.ok m) fits refused where
  tolerated := iff_of_true (tolerated_ok m) h
  reported := fun h => by cases h
  kept := fun _ hm => Except.ok.inj hm ▸ ⟨hr, hk⟩

theorem getNext_of_some {v : BitVec 32} (h : readWord b pos = some v) : getNext b pos = .ok v := by rw [getNext, h]

theorem getNext_of_none (h : readWord b pos = none) : getNext b pos = .error .outside := by rw [getNext, h]

theorem extractExtension_msgLen (w : BitVec 32) (m : IMsg) : (IMsg.extractExtension w m).attr.msgLen = m.attr.msgLen := by
  unfold IMsg.extractExtension
  split
  · rfl
  · split
    · rfl
    · split
      · rfl
      · split <;> rfl

/-- The extensions are passed, or they lead out of the bytes. -/
theorem extractExtensions_spec (b : List (BitVec 8)) (n : ℕ) (w : BitVec 32) (m : IMsg) (pos : ℕ) :
    match extEnd b n w pos with
    | some e => ∃ m', IMsg.extractExtensions b n w m pos = .ok (m', e) ∧ m'.attr.msgLen = m.attr.msgLen
    | none => IMsg.extractExtensions b n w m pos = .error .outside := by
  induction n generalizing w m pos with
  | zero =>
    rw [extEnd, IMsg.extractExtensions]
    by_cases h : IMsg.ext.get w = 0
    · rw [if_pos h, if_pos h]
      exact ⟨m, rfl, rfl⟩
    · rw [if_neg h, if_neg h]
  | succ n ih =>
    rw [extEnd, IMsg.extractExtensions]
    by_cases h : IMsg.ext.get w = 0
    · rw [if_pos h, if_pos h]
      exact ⟨m, rfl, rfl⟩
    · rw [if_neg h, if_neg h]
      cases hv : readWord b pos with
      | none =>
        rw [getNext_of_none hv]
        rfl
      | some v =>
        rw [getNext_of_some hv, ok_bind]
        have hstep := ih v (IMsg.extractExtension v m) (pos + 4)
        rw [extractExtension_msgLen] at hstep
        exact hstep

/-- The end of the extensions is on a word. -/
theorem extEnd_mod (h : extEnd b n w pos = some e) (hpos : pos % 4 = 0) : e % 4 = 0 := by
  induction n generalizing w pos with
  | zero =>
    rw [extEnd] at h
    split at h
    · exact Option.some.inj h ▸ hpos
    · cases h
  | succ n ih =>
    rw [extEnd] at h
    split at h
    · exact Option.some.inj h ▸ hpos
    · obtain ⟨v, -, h⟩ := Option.bind_eq_some_iff.1 h
      exact ih h (by omega)

/-- Data that fits is parsed, and other data is not. -/
theorem parseTail_spec (hpos : pos % 4 = 0) (hk : Keeps w m.attr) (hr : ¬ refused) :
    Extraction w (m.parseTail b may pos) (TailFits b may (header w).msgLen pos) refused := by
  have hsize : m.getTailSize pos = tailSize (header w).msgLen pos := by rw [IMsg.getTailSize, hk.2.1, tailSize]
  have hround : (tailSize (header w).msgLen pos + 3) / 4 * 4 = tailSize (header w).msgLen pos := by
    unfold tailSize
    omega
  unfold TailFits
  rw [IMsg.parseTail, hsize, IMsg.parseData, hround]
  by_cases hz : tailSize (header w).msgLen pos = 0
  · rw [if_pos hz]
    exact .success (.inl hz) hr hk
  · rw [if_neg hz]
    cases may with
    | false => exact .fault (fun h => by cases h) fun h => h.elim hz fun h => absurd h.1 (by decide)
    | true =>
      rw [if_pos rfl]
      by_cases hfit : tailSize (header w).msgLen pos ≤ cachelineSz ∧ ∀ i < tailSize (header w).msgLen pos, pos + i < b.length
      · have hlast := hfit.2 (tailSize (header w).msgLen pos - 1) (by omega)
        rw [if_pos hfit, ok_bind]
        exact .success (.inr ⟨rfl, hfit.1, by omega⟩) hr hk
      · rw [if_neg hfit, error_bind]
        exact .fault (fun h => by cases h) fun h => h.elim hz fun h => hfit ⟨h.2.1, fun i hi => by omega⟩

/-- Byte enables are parsed if their bytes are there. -/
theorem parseByteEnables_spec (m : IMsg) (hn : IsDataLength n) (hpos : pos % 4 = 0) :
    if pos + (n - 1) / 8 < b.length then ∃ m', m.parseByteEnables b n pos = .ok (m', pos + beSkip n) ∧ m'.attr = m.attr
    else m.parseByteEnables b n pos = .error .outside := by
  have hle : 0 < n ∧ n ≤ 64 := by
    rcases hn with rfl | rfl | rfl | rfl <;> decide
  have hend : (pos + (n - 1) / 8 + 3) / 4 * 4 = pos + beSkip n := by
    unfold beSkip
    omega
  rw [IMsg.parseByteEnables, hend]
  by_cases hfit : pos + (n - 1) / 8 < b.length
  · rw [if_pos hfit, if_pos ⟨hle.2, fun i hi => by omega⟩]
    exact ⟨_, rfl, rfl⟩
  · rw [if_neg hfit, if_neg fun h => hfit (h.2 (n - 1) (by omega))]

/-- What is left of a response, or of a chained request. -/
theorem longTail_spec (mayHave : Attr → Bool) (hpos : pos % 4 = 0) (hk : Keeps w m.attr) (hr : ¬ refused) (hmay : mayHave m.attr = true) :
    Extraction w ((if m.getTailSize pos > cachelineSz then m.parseByteEnables b cachelineSz pos else .ok (m, pos)) >>= fun p =>
      p.1.parseTail b (mayHave p.1.attr) p.2) (LongTailFits b (header w).msgLen pos) refused := by
  have hsize : m.getTailSize pos = tailSize (header w).msgLen pos := by rw [IMsg.getTailSize, hk.2.1, tailSize]
  rw [hsize, LongTailFits]
  by_cases hlong : tailSize (header w).msgLen pos > cachelineSz
  · rw [if_pos hlong, if_pos hlong]
    have hbe := parseByteEnables_spec (b := b) m (show IsDataLength cachelineSz by unfold IsDataLength; decide) hpos
    by_cases hfit : pos + 8 ≤ b.length
    · rw [if_pos (show pos + (cachelineSz - 1) / 8 < b.length by simp only [cachelineSz]; omega)] at hbe
      obtain ⟨m', hm', hattr⟩ := hbe
      rw [hm', ok_bind]
      dsimp only
      rw [hattr, hmay, and_iff_right hfit]
      exact parseTail_spec (by simp only [beSkip, cachelineSz]; omega) (hattr ▸ hk) hr
    · rw [if_neg (show ¬ pos + (cachelineSz - 1) / 8 < b.length by simp only [cachelineSz]; omega)] at hbe
      rw [hbe, error_bind]
      exact .fault (fun h => by cases h) fun h => hfit h.1
  · rw [if_neg hlong, if_neg hlong, ok_bind]
    dsimp only
    rw [hmay]
    exact parseTail_spec hpos hk hr

theorem keeps_req {a : Attr} (htype : a.msgType = (header w).msgType) (hlen : a.msgLen = (header w).msgLen) (hop : a.reqOp = (header w).reqOp)
    (hreq : (header w).msgType = Msg.typeReq) : Keeps w a := by
  have hone : ∀ a : Attr, a.msgType = Msg.typeReq → chainOf a = if a.reqOp = Msg.reqChain then some Msg.typeReq else none := by
    intro a ha
    have hsnp : MsgSnpReq.isSnpReqChain a = false := by
      rw [MsgSnpReq.isSnpReqChain, ha]
      rfl
    rw [chainOf, hsnp, if_neg Bool.false_ne_true]
    by_cases h : a.reqOp = Msg.reqChain
    · rw [if_pos ⟨ha, decide_eq_true h⟩, if_pos h]
    · rw [if_neg fun hc => h (of_decide_eq_true hc.2), if_neg h]
  exact ⟨htype, hlen, by rw [hone a (htype.trans hreq), hone _ hreq, hop]⟩

theorem reqFits_iff {w₁ : BitVec 32} (he : extEnd b b.length w 4 = some e) (hw₁ : readWord b e = some w₁) : ReqFits b w ↔
    if MsgReq.isReqChain (header w) then LongTailFits b (header w).msgLen (e + 4) else ReqBodyFits b w e w₁ := by
  constructor
  · rintro ⟨e', w₁', he', hw₁', h⟩
    obtain rfl := Option.some.inj (he'.symm.trans he)
    obtain rfl := Option.some.inj (hw₁'.symm.trans hw₁)
    exact h
  · exact fun h => ⟨e, w₁, he, hw₁, h⟩

theorem reqRefused_iff {w₁ : BitVec 32} (he : extEnd b b.length w 4 = some e) (hw₁ : readWord b e = some w₁) : ReqRefused b w ↔
    MsgReq.isReqChain (header w) = false ∧ MsgReq.hasByteEnables (header w) = true ∧
      MsgReq.getSize { reqAttr := (MsgReq.reqAttr.get w₁).setWidth 8 } = .error .reported := by
  constructor
  · rintro ⟨hc, hbe, e', w₁', he', hw₁', h⟩
    obtain rfl := Option.some.inj (he'.symm.trans he)
    obtain rfl := Option.some.inj (hw₁'.symm.trans hw₁)
    exact ⟨hc, hbe, h⟩
  · exact fun ⟨hc, hbe, h⟩ => ⟨hc, hbe, e, w₁, he, hw₁, h⟩

/-- What `ExtractMessage` does behind the fields of a request. -/
def reqTail (b : List (BitVec 8)) (p : IMsg × ℕ) : Except Fault IMsg :=
  MsgReq.extractByteEnables b p.1 p.2 >>= fun p =>
    p.1.parseTail b (MsgReq.isWrite p.1.attr || MsgReq.isAtomic p.1.attr || MsgReq.isReqChain p.1.attr) p.2

/-- Behind the fields of a request that is not chained. -/
theorem reqTail_spec {w₁ : BitVec 32} (hpos : e % 4 = 0) (hk : Keeps w m.attr) (hop : m.attr.reqOp = (header w).reqOp)
    (hsize : m.attr.reqAttr = (MsgReq.reqAttr.get w₁).setWidth 8) (hc : MsgReq.isReqChain (header w) = false)
    (hw₂ : ∃ w₂, readWord b (e + 4) = some w₂) : Extraction w (reqTail b (m, e + 8)) (ReqBodyFits b w e w₁)
      (MsgReq.hasByteEnables (header w) = true ∧ MsgReq.getSize { reqAttr := (MsgReq.reqAttr.get w₁).setWidth 8 } = .error .reported) := by
  have hwrite : MsgReq.isWrite m.attr = MsgReq.isWrite (header w) := by rw [MsgReq.isWrite, hop, MsgReq.isWrite]
  have hatomic : MsgReq.isAtomic m.attr = MsgReq.isAtomic (header w) := by rw [MsgReq.isAtomic, hop, MsgReq.isAtomic]
  have hbes : MsgReq.hasByteEnables m.attr = MsgReq.hasByteEnables (header w) := by rw [MsgReq.hasByteEnables, hop, MsgReq.hasByteEnables]
  have hchain : MsgReq.isReqChain m.attr = false := by rwa [MsgReq.isReqChain, hop]
  have hget : MsgReq.getSize m.attr = MsgReq.getSize { reqAttr := (MsgReq.reqAttr.get w₁).setWidth 8 } := by
    rw [MsgReq.getSize, hsize, MsgReq.getSize]
  rw [reqTail, MsgReq.extractByteEnables, hchain, if_neg Bool.false_ne_true, hbes, hget, ReqBodyFits, and_iff_right hw₂]
  cases hbe : MsgReq.hasByteEnables (header w) with
  | false =>
    rw [if_neg Bool.false_ne_true, if_neg Bool.false_ne_true, ok_bind]
    dsimp only
    rw [hwrite, hatomic, hchain, Bool.or_false]
    exact parseTail_spec (by omega) hk fun h => by cases h.1
  | true =>
    rw [if_pos rfl, if_pos rfl]
    rcases getSize_cases { reqAttr := (MsgReq.reqAttr.get w₁).setWidth 8 } with hn | ⟨n, hlen, hn⟩
    · rw [hn, error_bind, error_bind]
      exact .report (fun _ h => by cases h) ⟨rfl, rfl⟩
    · have hmay : MsgReq.isWrite (header w) = true := by
        simp only [MsgReq.hasByteEnables, Bool.or_eq_true, decide_eq_true_eq] at hbe
        rw [MsgReq.isWrite, decide_eq_true_iff]
        rcases hbe with (h | h) | h <;> rw [h] <;> decide
      have hone : (∀ k, (Except.ok n : Except Fault ℕ) = .ok k → e + 8 + (k - 1) / 8 < b.length ∧ TailFits b true (header w).msgLen (e + 8 + beSkip k)) ↔
          e + 8 + (n - 1) / 8 < b.length ∧ TailFits b true (header w).msgLen (e + 8 + beSkip n) :=
        ⟨fun h => h n rfl, fun h k hk => Except.ok.inj hk ▸ h⟩
      have hparse := parseByteEnables_spec (b := b) m hlen (show (e + 8) % 4 = 0 by omega)
      rw [hn, ok_bind, hone]
      by_cases hfit : e + 8 + (n - 1) / 8 < b.length
      · rw [if_pos hfit] at hparse
        obtain ⟨m', hm', hattr⟩ := hparse
        rw [hm', ok_bind, and_iff_right hfit]
        dsimp only
        rw [hattr, hwrite, hmay, Bool.true_or, Bool.true_or]
        exact parseTail_spec (by unfold beSkip; omega) (hattr ▸ hk) fun h => by cases h.2
      · rw [if_neg hfit] at hparse
        rw [hparse, error_bind]
        exact .fault (fun h => by cases h) fun h => hfit h.1

theorem req_behindExtensions {m₁ : IMsg} (hw : readWord b 0 = some w) (hm₁ : IMsg.extractExtensions b b.length w { m with attr := { m.attr with
    txnID := (MsgReq.txnID.get w).setWidth 16, reqOp := (MsgReq.reqOp.get w).setWidth 8 } } 4 = .ok (m₁, e)) :
    MsgReq.extractMessage b m = MsgReq.extractFields b m₁ e >>= reqTail b := by
  rw [MsgReq.extractMessage, getNext_of_some hw, ok_bind]
  dsimp only
  rw [hm₁, ok_bind]
  rfl

/-- The header words of a request, and what is behind them. -/
theorem req_spec (hw : readWord b 0 = some w) (m : IMsg) (htype : m.attr.msgType = (header w).msgType) (hlen : m.attr.msgLen = (header w).msgLen)
    (hreq : (header w).msgType = Msg.typeReq) : Extraction w (MsgReq.extractMessage b m) (ReqFits b w) (ReqRefused b w) := by
  have hexts := extractExtensions_spec b b.length w { m with attr := { m.attr with
    txnID := (MsgReq.txnID.get w).setWidth 16, reqOp := (MsgReq.reqOp.get w).setWidth 8 } } 4
  cases he : extEnd b b.length w 4 with
  | none =>
    rw [he] at hexts
    rw [MsgReq.extractMessage, getNext_of_some hw, ok_bind]
    dsimp only at hexts ⊢
    rw [hexts, error_bind]
    exact .fault (fun h => by cases h) (by rintro ⟨e, _, h, _⟩; rw [he] at h; cases h)
  | some e =>
    rw [he] at hexts
    obtain ⟨m₁, hm₁, hlen₁⟩ := hexts
    obtain ⟨htype₁, hop₁, -⟩ := extractExtensions_keeps hm₁
    have hmod := extEnd_mod he (by decide)
    have hk : Keeps w m₁.attr := keeps_req (htype₁.trans htype) (hlen₁.trans hlen) hop₁ hreq
    have hchain : MsgReq.isReqChain m₁.attr = MsgReq.isReqChain (header w) := by rw [MsgReq.isReqChain, hop₁, MsgReq.isReqChain]; rfl
    rw [req_behindExtensions hw hm₁, MsgReq.extractFields]
    cases hw₁ : readWord b e with
    | none =>
      rw [getNext_of_none hw₁, error_bind, error_bind]
      exact .fault (fun h => by cases h) (by rintro ⟨e', _, he', h, _⟩; rw [Option.some.inj (he'.symm.trans he), hw₁] at h; cases h)
    | some w₁ =>
      rw [getNext_of_some hw₁, ok_bind, hchain, reqFits_iff he hw₁, reqRefused_iff he hw₁]
      cases hc : MsgReq.isReqChain (header w) with
      | true =>
        rw [if_pos rfl, if_pos rfl, ok_bind, reqTail, MsgReq.extractByteEnables]
        dsimp only
        rw [hchain, hc, if_pos rfl]
        exact longTail_spec (fun a => MsgReq.isWrite a || MsgReq.isAtomic a || MsgReq.isReqChain a) (by omega) hk
          (fun h => by cases h.1) (by rw [hchain, hc, Bool.or_true])
      | false =>
        rw [if_neg Bool.false_ne_true, if_neg Bool.false_ne_true, and_iff_right rfl]
        cases hw₂ : readWord b (e + 4) with
        | none =>
          rw [getNext_of_none hw₂, error_bind, error_bind]
          exact .fault (fun h => by cases h) (by rintro ⟨⟨_, h⟩, _⟩; rw [hw₂] at h; cases h)
        | some w₂ =>
          rw [getNext_of_some hw₂, ok_bind, pure_bind]
          exact reqTail_spec hmod (keeps_req (htype₁.trans htype) (hlen₁.trans hlen) hop₁ hreq) hop₁ rfl hc ⟨w₂, hw₂⟩

theorem snp_spec (hw : readWord b 0 = some w) (m : IMsg) (htype : m.attr.msgType = (header w).msgType) (hlen : m.attr.msgLen = (header w).msgLen)
    (hsnp : (header w).msgType = Msg.typeSnpReq) : Extraction w (MsgSnpReq.extractMessage b m) (SnpFits b w) False := by
  have hexts := extractExtensions_spec b b.length w { m with attr := { m.attr with
    txnID := (MsgSnpReq.txnID.get w).setWidth 16, dataRet := decide (MsgSnpReq.dr.get w ≠ 0), snpOp := (MsgSnpReq.snpOp.get w).setWidth 8 } } 4
  cases he : extEnd b b.length w 4 with
  | none =>
    rw [he] at hexts
    rw [MsgSnpReq.extractMessage, getNext_of_some hw, ok_bind]
    dsimp only at hexts ⊢
    rw [hexts, error_bind]
    exact .fault (fun h => by cases h) (by rintro ⟨e, _, h, _⟩; rw [he] at h; cases h)
  | some e =>
    rw [he] at hexts
    obtain ⟨m₁, hm₁, hlen₁⟩ := hexts
    obtain ⟨htype₁, -, hop₁⟩ := extractExtensions_keeps hm₁
    have hkeeps : ∀ a : Attr, a.msgType = m₁.attr.msgType → a.msgLen = m₁.attr.msgLen → a.snpOp = m₁.attr.snpOp → Keeps w a := by
      intro a ha₁ ha₂ ha₃
      have htype' : a.msgType = (header w).msgType := ha₁.trans (htype₁.trans htype)
      have hop' : a.snpOp = (header w).snpOp := ha₃.trans hop₁
      have hnot : ∀ o : Attr, o.msgType = (header w).msgType → ¬ (o.msgType = Msg.typeReq ∧ MsgReq.isReqChain o) := by
        rintro o ho ⟨h, -⟩
        rw [ho, hsnp] at h
        exact absurd h (by decide)
      refine ⟨htype', ha₂.trans (hlen₁.trans hlen), ?_⟩
      rw [chainOf, if_neg (hnot a htype'), chainOf, if_neg (hnot _ rfl), MsgSnpReq.isSnpReqChain, htype', hop', MsgSnpReq.isSnpReqChain]
    have hchain : MsgSnpReq.isSnpReqChain m₁.attr = MsgSnpReq.isSnpReqChain (header w) := by
      rw [MsgSnpReq.isSnpReqChain, htype₁.trans htype, hop₁, MsgSnpReq.isSnpReqChain]
      rfl
    have hbody : MsgSnpReq.extractMessage b m = MsgSnpReq.extractFields b m₁ e := snp_extractMessage (getNext_of_some hw) hm₁
    rw [hbody, MsgSnpReq.extractFields, hchain]
    cases hw₁ : readWord b e with
    | none =>
      rw [getNext_of_none hw₁, error_bind]
      exact .fault (fun h => by cases h) (by rintro ⟨e', _, he', h, _⟩; rw [Option.some.inj (he'.symm.trans he), hw₁] at h; cases h)
    | some w₁ =>
      rw [getNext_of_some hw₁, ok_bind]
      by_cases hc : MsgSnpReq.isSnpReqChain (header w) = true
      · rw [if_pos hc]
        exact .success ⟨e, w₁, he, hw₁, .inl hc⟩ id (hkeeps _ rfl rfl rfl)
      · rw [if_neg hc]
        cases hw₂ : readWord b (e + 4) with
        | none =>
          rw [getNext_of_none hw₂, error_bind]
          refine .fault (fun h => by cases h) ?_
          rintro ⟨e', _, he', _, h⟩
          obtain rfl := Option.some.inj (he'.symm.trans he)
          rcases h with h | ⟨_, h⟩
          · exact hc h
          · rw [hw₂] at h
            cases h
        | some w₂ =>
          rw [getNext_of_some hw₂, ok_bind]
          exact .success ⟨e, w₁, he, hw₁, .inr ⟨w₂, hw₂⟩⟩ id (hkeeps _ rfl rfl rfl)

/-- A message that is not chained keeps its type and its length. -/
theorem keeps_other {a : Attr} (htype : a.msgType = (header w).msgType) (hlen : a.msgLen = (header w).msgLen)
    (hreq : (header w).msgType ≠ Msg.typeReq) (hsnp : (header w).msgType ≠ Msg.typeSnpReq) : Keeps w a := by
  have hone : ∀ a : Attr, a.msgType = (header w).msgType → chainOf a = none := by
    intro a ha
    have hnot : MsgSnpReq.isSnpReqChain a = false := by rw [MsgSnpReq.isSnpReqChain, ha, decide_eq_false hsnp, Bool.false_and]
    rw [chainOf, if_neg fun h => hreq (ha.symm.trans h.1), hnot, if_neg Bool.false_ne_true]
  exact ⟨htype, hlen, by rw [hone a htype, hone _ rfl]⟩

/-- The word of a response, and what is behind it. -/
theorem rsp_spec (hw : readWord b 0 = some w) (m : IMsg) (htype : m.attr.msgType = (header w).msgType) (hlen : m.attr.msgLen = (header w).msgLen)
    (hreq : (header w).msgType ≠ Msg.typeReq) (hsnp : (header w).msgType ≠ Msg.typeSnpReq) :
    Extraction w (MsgRsp.extractMessage b m) (RspFits b w) False := by
  have hexts := extractExtensions_spec b b.length w { m with attr := { m.attr with
    txnID := (MsgRsp.txnID.get w).setWidth 16, respAttr := (MsgRsp.respAttr.get w).setWidth 8, respOp := (MsgRsp.respOp.get w).setWidth 8 } } 4
  cases he : extEnd b b.length w 4 with
  | none =>
    rw [he] at hexts
    rw [MsgRsp.extractMessage, getNext_of_some hw, ok_bind]
    dsimp only at hexts ⊢
    rw [hexts, error_bind]
    exact .fault (fun h => by cases h) (by rintro ⟨e, h, _⟩; rw [he] at h; cases h)
  | some e =>
    rw [he] at hexts
    obtain ⟨m₁, hm₁, hlen₁⟩ := hexts
    obtain ⟨htype₁, -, -⟩ := extractExtensions_keeps hm₁
    have hfits : RspFits b w ↔ LongTailFits b (header w).msgLen e := by
      refine ⟨?_, fun h => ⟨e, he, h⟩⟩
      rintro ⟨e', he', h⟩
      exact Option.some.inj (he'.symm.trans he) ▸ h
    rw [rsp_extractMessage (getNext_of_some hw) hm₁, MsgRsp.extractByteEnables, hfits]
    exact longTail_spec (fun _ => true) (extEnd_mod he (by decide))
      (keeps_other (htype₁.trans htype) (hlen₁.trans hlen) hreq hsnp) id rfl

/-- The two words of a message with credits. -/
theorem crdEx_spec (hw : readWord b 0 = some w) (m : IMsg) (htype : m.attr.msgType = (header w).msgType) (hlen : m.attr.msgLen = (header w).msgLen)
    (hreq : (header w).msgType ≠ Msg.typeReq) (hsnp : (header w).msgType ≠ Msg.typeSnpReq) (hr : ¬ refused) :
    Extraction w (MsgCrdEx.extractMessage b m) (8 ≤ b.length) refused := by
  rw [MsgCrdEx.extractMessage, getNext_of_some hw, ok_bind]
  cases hw₁ : readWord b 4 with
  | none =>
    rw [getNext_of_none hw₁, error_bind]
    refine .fault (fun h => by cases h) fun h => ?_
    obtain ⟨v, hv⟩ := exists_readWord_iff.2 (show 4 + 4 ≤ b.length from h)
    rw [hw₁] at hv
    cases hv
  | some w₁ =>
    rw [getNext_of_some hw₁, ok_bind]
    exact .success (exists_readWord_iff.1 ⟨w₁, hw₁⟩) hr (keeps_other htype hlen hreq hsnp)

theorem miscCredited_spec (hw : readWord b 0 = some w) (m : IMsg) (htype : m.attr.msgType = (header w).msgType)
    (hlen : m.attr.msgLen = (header w).msgLen) (hreq : (header w).msgType ≠ Msg.typeReq) (hsnp : (header w).msgType ≠ Msg.typeSnpReq) (hr : ¬ refused) :
    Extraction w (MsgMiscCredited.extractMessage b m)
      (tailSize (header w).msgLen 4 + 2 ≤ maxDataSz ∧ 4 + tailSize (header w).msgLen 4 ≤ b.length) refused := by
  have hsize : m.getTailSize 4 = tailSize (header w).msgLen 4 := by rw [IMsg.getTailSize, hlen, tailSize]
  rw [MsgMiscCredited.extractMessage, getNext_of_some hw, ok_bind, hsize]
  by_cases hfit : tailSize (header w).msgLen 4 + 2 ≤ maxDataSz ∧ 4 + tailSize (header w).msgLen 4 ≤ b.length
  · dsimp only
    rw [if_pos hfit]
    exact .success hfit hr (keeps_other htype hlen hreq hsnp)
  · dsimp only
    rw [if_neg hfit]
    exact .fault (fun h => by cases h) hfit

/-- **A message is extracted if it has what it needs, and refused or not.** -/
theorem newMsg_spec (hw : readWord b 0 = some w) (m : IMsg) (htype : m.attr.msgType = (header w).msgType) (hlen : m.attr.msgLen = (header w).msgLen) :
    Extraction w (TLPAssembler.newMsg w b m) (MsgFits b w) (Refused b w) := by
  have hop : (getField 16 3 w).setWidth 8 = (header w).miscOp := rfl
  rw [TLPAssembler.newMsg, htype, MsgFits, Refused, hop]
  by_cases hreq : (header w).msgType = Msg.typeReq
  · rw [if_pos hreq, if_pos hreq, if_pos hreq]
    exact req_spec hw m htype hlen hreq
  rw [if_neg hreq, if_neg hreq, if_neg hreq]
  by_cases hsnp : (header w).msgType = Msg.typeSnpReq
  · rw [if_pos hsnp, if_pos hsnp, if_pos (.inl hsnp)]
    exact snp_spec hw m htype hlen hsnp
  rw [if_neg hsnp, if_neg hsnp]
  by_cases hrsp : (header w).msgType = Msg.typeResp ∨ (header w).msgType = Msg.typeSnpResp
  · rw [if_pos hrsp, if_pos hrsp, if_pos (.inr hrsp)]
    exact rsp_spec hw m htype hlen hreq hsnp
  rw [if_neg hrsp, if_neg hrsp, if_neg (not_or.2 ⟨hsnp, hrsp⟩)]
  by_cases hun : (header w).msgType = Msg.typeMiscUnCredited
  · rw [if_pos hun, if_pos hun, if_pos hun]
    by_cases hnop : (header w).miscOp = Msg.nop
    · rw [if_pos hnop, if_neg (by rw [hnop]; decide), MsgNOP.extractMessage, getNext_of_some hw, ok_bind]
      exact .success trivial (fun h => h.1 hnop) (keeps_other htype hlen hreq hsnp)
    rw [if_neg hnop]
    by_cases hgrant : (header w).miscOp = Msg.creditGrant ∨ (header w).miscOp = Msg.creditReturn
    · rw [if_pos hgrant, if_pos hgrant]
      exact crdEx_spec hw m htype hlen hreq hsnp fun h => hgrant.elim h.2.1 h.2.2
    · rw [if_neg hgrant, if_neg hgrant]
      exact .report trivial ⟨hnop, not_or.1 hgrant⟩
  rw [if_neg hun, if_neg hun, if_neg hun]
  by_cases hcred : (header w).msgType = Msg.typeMiscCredited
  · rw [if_pos hcred, if_pos hcred]
    exact miscCredited_spec hw m htype hlen hreq hsnp fun h => h hcred
  · rw [if_neg hcred, if_neg hcred]
    exact .report trivial hcred

end Extraction

/-! ### The messages of a TLP -/

/-- The types and lengths of the messages extracted so far. -/
abbrev Seen := List (BitVec 8 × BitVec 8)

/-- The length of the last message of a type. -/
def Seen.last (seen : Seen) (t : BitVec 8) : Option (BitVec 8) := (seen.reverse.find? fun p => p.1 = t).map Prod.snd

/-- What a list of messages says. -/
def seenOf (l : List IMsg) : Seen := l.map fun m => (m.attr.msgType, m.attr.msgLen)

/-- A message is reported: it is refused, or there is none before it that it could be chained to. -/
def Rejected (seen : Seen) (b : List (BitVec 8)) (w : BitVec 32) : Prop :=
  Refused b w ∨ ∃ t, chainOf (header w) = some t ∧ seen.last t = none

/-- **The messages of a TLP are well formed**: each has what it needs, and if it is not reported, which ends the TLP, it has a length and, if it
is chained, that of the message it is chained to. -/
inductive Formed : Seen → List (BitVec 8) → Prop
  | done {seen : Seen} : Formed seen []
  | rejected {seen : Seen} {b : List (BitVec 8)} {w : BitVec 32} : readWord b 0 = some w → MsgFits b w → Rejected seen b w → Formed seen b
  | next {seen : Seen} {b : List (BitVec 8)} {w : BitVec 32} : readWord b 0 = some w → MsgFits b w → ¬ Rejected seen b w →
      0 < (header w).msgLen.toNat → (∀ t n, chainOf (header w) = some t → seen.last t = some n → n = (header w).msgLen) →
      Formed (seen ++ [((header w).msgType, (header w).msgLen)]) (b.drop (4 * (header w).msgLen.toNat)) → Formed seen b

section Loop

variable {tgtID srcID : BitVec 8} {b : List (BitVec 8)} {s s' : Loop} {w : BitVec 32} {n : ℕ} {seen : Seen}

theorem last_seenOf (l : List IMsg) (t : BitVec 8) : (seenOf l).last t = (TLPAssembler.lookupPrev l t).map fun m => m.attr.msgLen := by
  rw [Seen.last, seenOf, ← List.map_reverse, List.find?_map, Option.map_map, TLPAssembler.lookupPrev]
  rfl

theorem not_rejected_append (x : BitVec 8 × BitVec 8) (h : ¬ Rejected seen b w) : ¬ Rejected (seen ++ [x]) b w := by
  rintro (hr | ⟨t, ht, hnone⟩)
  · exact h (.inl hr)
  · refine h (.inr ⟨t, ht, ?_⟩)
    rw [Seen.last, Option.map_eq_none_iff, List.find?_eq_none] at hnone ⊢
    exact fun p hp => hnone p (by rw [List.reverse_append]; exact List.mem_append_right _ hp)

theorem receivedLen_eq (hw : readWord b 0 = some w) : TLPAssembler.receivedLen b = 4 * (header w).msgLen.toNat := by
  have hlt : (IMsg.msgLen.get w).toNat < 2 ^ 5 := getField_lt (by decide) w
  have hback : ((IMsg.msgLen.get w).setWidth 8).toNat = (IMsg.msgLen.get w).toNat := by
    rw [BitVec.toNat_setWidth]
    omega
  rw [TLPAssembler.receivedLen, hw, header, hback]
  rfl

theorem setup_chainOf (l : List IMsg) (m : IMsg) :
    TLPAssembler.setup l m = (chainOf m.attr).elim (.ok m) fun t => TLPAssembler.setupChain t l m := by
  rw [TLPAssembler.setup, chainOf]
  split
  · rfl
  · split <;> rfl

theorem msgType_of_chainOf {a : Attr} {t : BitVec 8} (h : chainOf a = some t) : a.msgType = t := by
  rw [chainOf] at h
  split at h
  case isTrue hreq => exact hreq.1.trans (Option.some.inj h)
  case isFalse =>
    split at h
    case isTrue hsnp =>
      rw [MsgSnpReq.isSnpReqChain, Bool.and_eq_true, decide_eq_true_iff] at hsnp
      exact hsnp.1.trans (Option.some.inj h)
    case isFalse => cases h

/-- What a pass leaves, if it is made: a message of its type, and the next position. Its length is that of the message it is chained to. -/
structure Passed (s : Loop) (w : BitVec 32) (s' : Loop) : Prop where
  credit : s'.msgCredit = 0
  msgs : ∃ m, s'.msgs = s.msgs ++ [m] ∧ m.attr.msgType = (header w).msgType ∧ s'.pos = s.pos + 4 * m.attr.msgLen.toNat ∧
    (chainOf (header w)).elim (some (header w).msgLen) (seenOf s.msgs).last = some m.attr.msgLen

/-- **One pass.** -/
theorem pass_spec (tgtID srcID : BitVec 8) (hw : readWord (b.drop s.pos) 0 = some w) :
    (Tolerated (TLPAssembler.pass tgtID srcID b s) ↔ MsgFits (b.drop s.pos) w) ∧
    (TLPAssembler.pass tgtID srcID b s = .error .reported → Rejected (seenOf s.msgs) (b.drop s.pos) w) ∧
    ∀ s', TLPAssembler.pass tgtID srcID b s = .ok s' → ¬ Rejected (seenOf s.msgs) (b.drop s.pos) w ∧ Passed s w s' := by
  have hlong : ¬ (b.drop s.pos).length < 4 := by
    have hle := exists_readWord_iff.1 ⟨w, hw⟩
    omega
  have hx := newMsg_spec hw (IMsg.ofHeader tgtID srcID s.msgCredit w) rfl rfl
  rw [TLPAssembler.pass, TLPAssembler.extractCCIXMessage, if_neg hlong, getNext_of_some hw, ok_bind]
  cases hr : TLPAssembler.newMsg w (b.drop s.pos) (IMsg.ofHeader tgtID srcID s.msgCredit w) with
  | error f =>
    rw [hr] at hx
    rw [error_bind, tolerated_error]
    refine ⟨by rw [← hx.tolerated, tolerated_error], fun h => .inl (hx.reported (congrArg Except.error (Except.error.inj h))), fun _ h => by cases h⟩
  | ok m =>
    rw [hr] at hx
    obtain ⟨hnot, htype, hlen, hchain⟩ := hx.kept m rfl
    have hfits := hx.tolerated.1 (tolerated_ok m)
    rw [ok_bind, setup_chainOf, hchain]
    cases hc : chainOf (header w) with
    | none =>
      refine ⟨iff_of_true (tolerated_ok _) hfits, (fun h => by cases h), fun s' h => ?_⟩
      obtain rfl := Except.ok.inj h
      refine ⟨fun h => h.elim hnot ?_, rfl, m, rfl, htype, rfl, ?_⟩
      · rintro ⟨_, ht, _⟩
        rw [hc] at ht
        cases ht
      rw [hc, hlen]
      rfl
    | some t =>
      rw [Option.elim_some, TLPAssembler.setupChain]
      cases hprev : TLPAssembler.lookupPrev s.msgs t with
      | none =>
        refine ⟨iff_of_true ((tolerated_error _).2 rfl) hfits, fun _ => .inr ⟨t, hc, by rw [last_seenOf, hprev]; rfl⟩, fun _ h => by cases h⟩
      | some prev =>
        have htype' : prev.attr.msgType = t := by
          rw [TLPAssembler.lookupPrev] at hprev
          have hfound := List.find?_some hprev
          exact of_decide_eq_true hfound
        refine ⟨iff_of_true (tolerated_ok _) hfits, (fun h => by cases h), fun s' h => ?_⟩
        obtain rfl := Except.ok.inj h
        refine ⟨fun h => h.elim hnot ?_, rfl, _, rfl, htype'.trans (msgType_of_chainOf hc).symm, rfl, ?_⟩
        · rintro ⟨t', ht', hnone⟩
          obtain rfl := Option.some.inj (hc.symm.trans ht')
          rw [last_seenOf, hprev] at hnone
          cases hnone
        · rw [hc, Option.elim_some, last_seenOf, hprev]
          rfl

/-- The rest of a TLP is consumed, in `n` passes. -/
def Settled (tgtID srcID : BitVec 8) (b : List (BitVec 8)) (n : ℕ) (s : Loop) : Prop :=
  Tolerated (TLPAssembler.extractFrom tgtID srcID n s.msgCredit (b.drop s.pos) s.msgs) ∧ ∀ s₁ s₂,
    ReflTransGen (TLPAssembler.Passes tgtID srcID b) s s₁ → TLPAssembler.Passes tgtID srcID b s₁ s₂ →
      s₂.pos = s₁.pos + TLPAssembler.receivedLen (b.drop s₁.pos)

theorem settled_of_end (h : b.length ≤ s.pos) : Settled tgtID srcID b n s := by
  have hnil : b.drop s.pos = [] := List.drop_eq_nil_of_le h
  refine ⟨?_, fun s₁ s₂ hs h₂ => ?_⟩
  · rw [hnil]
    cases n <;> exact tolerated_ok _
  · rcases hs.cases_head with rfl | ⟨s', ⟨hlt, -⟩, -⟩
    · exact absurd h₂.1 (by omega)
    · exact absurd hlt (by omega)

/-- The rest of a TLP is consumed if a pass is made and what is then left is consumed. -/
theorem settled_succ (h : s.pos < b.length) : Settled tgtID srcID b (n + 1) s ↔ Tolerated (TLPAssembler.pass tgtID srcID b s) ∧
    ∀ s', TLPAssembler.pass tgtID srcID b s = .ok s' →
      s'.pos = s.pos + TLPAssembler.receivedLen (b.drop s.pos) ∧ Settled tgtID srcID b n s' := by
  rw [Settled, TLPAssembler.extractFrom_pass tgtID srcID b n h, tolerated_bind]
  constructor
  · rintro ⟨⟨hpass, hrest⟩, hall⟩
    refine ⟨hpass, fun s' hs' => ⟨hall s s' .refl ⟨h, hs'⟩, hrest s' hs', fun s₁ s₂ h₁ h₂ => ?_⟩⟩
    exact hall s₁ s₂ (.head ⟨h, hs'⟩ h₁) h₂
  · rintro ⟨hpass, hrest⟩
    refine ⟨⟨hpass, fun s' hs' => (hrest s' hs').2.1⟩, fun s₁ s₂ h₁ h₂ => ?_⟩
    rcases h₁.cases_head with rfl | ⟨s', ⟨-, hs'⟩, h₁⟩
    · exact (hrest s₂ h₂.2).1
    · exact (hrest s' hs').2.2 s₁ s₂ h₁ h₂

/-- There is a word in front of what is left, or the pass fails. -/
theorem exists_word_of_tolerated (h : Tolerated (TLPAssembler.pass tgtID srcID b s)) : ∃ w, readWord (b.drop s.pos) 0 = some w := by
  by_contra hno
  have hshort : (b.drop s.pos).length < 4 := by
    by_contra hle
    exact hno (exists_readWord_iff.2 (by omega))
  rw [TLPAssembler.pass, TLPAssembler.extractCCIXMessage, if_pos hshort, error_bind, tolerated_error] at h
  cases h

theorem seen_of_passed (hp : Passed s w s') (hadv : s'.pos = s.pos + 4 * (header w).msgLen.toNat) :
    seenOf s'.msgs = seenOf s.msgs ++ [((header w).msgType, (header w).msgLen)] := by
  obtain ⟨m, hmsgs, htype, hpos, -⟩ := hp.msgs
  have hlen : m.attr.msgLen = (header w).msgLen := BitVec.eq_of_toNat_eq (by omega)
  rw [hmsgs, seenOf, List.map_append, List.map_singleton, htype, hlen]
  rfl

/-- **What is consumed is well formed.** -/
theorem formed_of_settled (h : Settled tgtID srcID b n s) : Formed (seenOf s.msgs) (b.drop s.pos) := by
  induction n generalizing s with
  | zero =>
    obtain ⟨hrun, -⟩ := h
    cases hb : b.drop s.pos with
    | nil => exact .done
    | cons a r =>
      rw [hb] at hrun
      exact nomatch (tolerated_error _).1 hrun
  | succ n ih =>
    rcases Nat.lt_or_ge s.pos b.length with hlt | hge
    · obtain ⟨hpass, hrest⟩ := (settled_succ hlt).1 h
      obtain ⟨w, hw⟩ := exists_word_of_tolerated hpass
      obtain ⟨hfits, hrejected, hpassed⟩ := pass_spec tgtID srcID hw
      cases hr : TLPAssembler.pass tgtID srcID b s with
      | error f =>
        obtain rfl := hpass f hr
        exact .rejected hw (hfits.1 hpass) (hrejected hr)
      | ok s' =>
        obtain ⟨hnot, hp⟩ := hpassed s' hr
        obtain ⟨hadv, hsettled⟩ := hrest s' hr
        rw [receivedLen_eq hw] at hadv
        have hformed := ih hsettled
        rw [seen_of_passed hp hadv, hadv, ← List.drop_drop] at hformed
        have hpos : 0 < (header w).msgLen.toNat := by
          -- without a length the message is met again, and there is nothing that would end the passes
          by_contra hzero
          rw [show 4 * (header w).msgLen.toNat = 0 by omega, List.drop_zero] at hformed
          generalize hb : b.drop s.pos = r at *
          cases hformed with
          | done => cases hw
          | rejected hw' _ hrej =>
            obtain rfl := Option.some.inj (hw'.symm.trans hw)
            exact not_rejected_append _ hnot hrej
          | next hw' _ _ hpos' _ _ =>
            obtain rfl := Option.some.inj (hw'.symm.trans hw)
            exact hzero hpos'
        refine .next hw (hfits.1 hpass) hnot hpos (fun t k ht hk => ?_) hformed
        obtain ⟨m, -, -, hadv', hlen⟩ := hp.msgs
        rw [ht, Option.elim_some, hk] at hlen
        rw [Option.some.inj hlen]
        exact BitVec.eq_of_toNat_eq (by omega)
    · rw [List.drop_eq_nil_of_le hge]
      exact .done

theorem lt_of_word (hw : readWord (b.drop s.pos) 0 = some w) : s.pos < b.length := by
  have hle := exists_readWord_iff.1 ⟨w, hw⟩
  rw [List.length_drop] at hle
  omega

theorem exists_succ_of_word {r : List (BitVec 8)} (hw : readWord r 0 = some w) (hn : r.length ≤ n) : ∃ k, n = k + 1 := by
  have hle := exists_readWord_iff.1 ⟨w, hw⟩
  exact ⟨n - 1, by omega⟩

/-- **What is well formed is consumed**, in no more passes than it has bytes. -/
theorem settled_of_formed {r : List (BitVec 8)} (h : Formed seen r) (hs : seen = seenOf s.msgs) (hr : r = b.drop s.pos) (hn : r.length ≤ n) :
    Settled tgtID srcID b n s := by
  induction h generalizing s n with
  | done => exact settled_of_end (List.drop_eq_nil_iff.1 hr.symm)
  | @rejected seen r w hw hfits hrej =>
    subst hs hr
    obtain ⟨htol, -, hpassed⟩ := pass_spec tgtID srcID hw
    obtain ⟨k, rfl⟩ := exists_succ_of_word hw hn
    rw [settled_succ (lt_of_word hw)]
    exact ⟨htol.2 hfits, fun s' hs' => absurd hrej (hpassed s' hs').1⟩
  | @next seen r w hw hfits hnot hpos hagrees _ ih =>
    subst hs hr
    obtain ⟨htol, -, hpassed⟩ := pass_spec tgtID srcID hw
    obtain ⟨k, rfl⟩ := exists_succ_of_word hw hn
    rw [settled_succ (lt_of_word hw)]
    refine ⟨htol.2 hfits, fun s' hs' => ?_⟩
    obtain ⟨-, hp⟩ := hpassed s' hs'
    have hadv : s'.pos = s.pos + 4 * (header w).msgLen.toNat := by
      obtain ⟨m, -, -, hadv, hlen⟩ := hp.msgs
      cases hc : chainOf (header w) with
      | none =>
        rw [hc] at hlen
        rw [hadv, Option.some.inj hlen]
      | some t =>
        rw [hc] at hlen
        rw [hadv, hagrees t _ hc hlen]
    refine ⟨by rw [hadv, receivedLen_eq hw], ih (seen_of_passed hp hadv).symm (by rw [hadv, List.drop_drop]) ?_⟩
    rw [List.length_drop]
    have hlt := lt_of_word hw
    rw [List.length_drop] at hn ⊢
    omega

end Loop

namespace TLPAssembler

/-- **A TLP is consumed exactly if there is a header and the messages behind it are well formed.** -/
theorem consumed_iff_formed (k : TLPHdr) (b : List (BitVec 8)) (l : List IMsg) :
    Consumed k b l ↔ 4 * k.size ≤ b.length ∧ Formed (seenOf l) (b.drop (4 * k.size)) := by
  have hsize : 4 * (k.size - 1) + 4 = 4 * k.size := by cases k <;> rfl
  cases hw : readWord b (4 * (k.size - 1)) with
  | none =>
    rw [Consumed, extractCCIXMessages, getNext_of_none hw, error_bind, tolerated_error]
    refine iff_of_false (fun h => by cases h.1) fun h => ?_
    obtain ⟨v, hv⟩ := exists_readWord_iff.2 (show 4 * (k.size - 1) + 4 ≤ b.length by omega)
    rw [hw] at hv
    cases hv
  | some w =>
    have hone : Consumed k b l ↔ Settled ((TLPHdr.tgtID.get w).setWidth 8) ((TLPHdr.srcID.get w).setWidth 8) b b.length (start k w l) := by
      rw [Consumed, extractCCIXMessages, getNext_of_some hw, ok_bind]
      exact and_congr_right fun _ => ⟨fun h => h w rfl, fun h v hv => Except.ok.inj hv ▸ h⟩
    rw [hone, and_iff_right (hsize ▸ exists_readWord_iff.1 ⟨w, hw⟩)]
    exact ⟨formed_of_settled, fun h => settled_of_formed h rfl rfl (by rw [List.length_drop]; omega)⟩

/-- A NOP that gives no length is extracted again and again. -/
theorem not_consumed_zeroLength : ¬ Consumed .opt (bytesOf [0x4070400a, 0x58000000]) [] := by
  intro h
  have hrun : extractCCIXMessages .opt (bytesOf [0x4070400a, 0x58000000]) [] = .error .diverges := rfl
  exact nomatch h.1 .diverges hrun

end TLPAssembler

end LibSystemCTLM.Ccix
