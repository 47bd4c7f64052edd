import LibSystemCTLM.Ccix.Parsing

/-!
# Chained messages

Behind a request, or a snoop request, a TLP may hold messages that are chained to it: a word, and
the byte enables and the data there are for the next cacheline. They get their attributes and
their address from the message before (`SetupReqChain`, `SetupSnpReqChain`).

None is extracted as it was packed. `ExtractExtensions` takes the word behind the header as well,
which a chained message does not have: the byte enables and the data of a request are read from
the word behind (`not_carried_req`), or from behind the message. And the length that
the loop goes on by is that of the message before (`not_advanced_snp`). So a TLP is extracted as it
was packed exactly if nothing is chained (`chainCarried_iff`).
-/

namespace LibSystemCTLM.Ccix

open Foundation Relation

/-- A message of type `t` that others may be chained to, as its words. -/
structure FirstMsg (t : BitVec 8) where
  head : BitVec 32
  tail : List (BitVec 32)
  msgType : (header head).msgType = t
  unchained : chainOf (header head) = none
  msgLen : (header head).msgLen.toNat = 1 + tail.length
  /-- There are the words of the address. -/
  two_le : 2 ≤ tail.length

/-- A message chained to one of type `t`, as it is packed. -/
structure ChainedMsg (t : BitVec 8) where
  head : BitVec 32
  byteEnables : List (BitVec 32)
  data : List (BitVec 32)
  chained : chainOf (header head) = some t
  ext : IMsg.ext.get head = 0
  msgLen : (header head).msgLen.toNat = 1 + byteEnables.length + data.length
  /-- A bit for each byte of a cacheline. -/
  byteEnables_le : byteEnables.length ≤ 2
  /-- A snoop request has no data. -/
  of_snp : t = Msg.typeSnpReq → byteEnables = [] ∧ data = []

namespace FirstMsg

/-- The words of the message. -/
def words {t : BitVec 8} (f : FirstMsg t) : List (BitVec 32) := f.head :: f.tail

end FirstMsg

namespace ChainedMsg

/-- The words of the message. -/
def words {t : BitVec 8} (c : ChainedMsg t) : List (BitVec 32) := c.head :: (c.byteEnables ++ c.data)

end ChainedMsg

/-- The attributes but the length and the `TxnID`, which are a message's own. -/
def Attr.shared (a : Attr) : Attr := { a with msgLen := 0, txnID := 0 }

/-- **A chained message is extracted as it was packed**: it is the `i`-th behind `m₀`. -/
structure CarriedBehind {t : BitVec 8} (m₀ : IMsg) (i : ℕ) (c : ChainedMsg t) (m : IMsg) : Prop where
  attr : m.attr.shared = m₀.attr.shared
  address : m.address = m₀.address + BitVec.ofNat 64 (i * 64)
  dataLength : c.data ≠ [] → m.dataLength = 4 * c.data.length
  data : ∀ j < 4 * c.data.length, m.data j = (bytesOf c.data).getD j 0
  byteEnables : m.byteEnableLength = 0 ↔ c.byteEnables = []
  enabled : c.byteEnables ≠ [] → ∀ j < 4 * c.data.length, m.enabled j = ((bytesOf c.byteEnables).getD (j / 8) 0).getLsbD (j % 8)

/-- A TLP that holds a message, a chain behind it and other messages. -/
structure ChainTLP (k : TLPHdr) (t : BitVec 8) where
  hdr : List (BitVec 32)
  length_hdr : hdr.length = k.size
  first : FirstMsg t
  chain : List (ChainedMsg t)
  rest : List (BitVec 32)

/-- The bytes of the TLP. -/
def ChainTLP.bytes {k : TLPHdr} {t : BitVec 8} (p : ChainTLP k t) : List (BitVec 8) :=
  bytesOf (p.hdr ++ (p.first.words ++ (p.chain.flatMap ChainedMsg.words ++ p.rest)))

namespace TLPAssembler

/-- Each message of a chain is extracted by a pass at its position, as it was packed, and the next position is behind it. -/
def ChainPasses {t : BitVec 8} (tgtID srcID : BitVec 8) (b : List (BitVec 8)) (m₀ : IMsg) : ℕ → List (ChainedMsg t) → Loop → Prop
  | _, [], _ => True
  | i, c :: cs, s => ∃ s' m, pass tgtID srcID b s = .ok s' ∧ s'.msgs = s.msgs ++ [m] ∧ CarriedBehind m₀ (i + 1) c m ∧
      s'.pos = s.pos + 4 * c.words.length ∧ ChainPasses tgtID srcID b m₀ (i + 1) cs s'

end TLPAssembler

/-- **A TLP is extracted as its chain was packed**: its first message by a pass from the start on, and those chained to it. What is behind them is
extracted from its position on. -/
def ChainTLP.Carried {k : TLPHdr} {t : BitVec 8} (p : ChainTLP k t) (l : List IMsg) : Prop :=
  ∃ w s m₀, getNext p.bytes (4 * (k.size - 1)) = .ok w ∧
    TLPAssembler.pass ((TLPHdr.tgtID.get w).setWidth 8) ((TLPHdr.srcID.get w).setWidth 8) p.bytes (TLPAssembler.start k w l) = .ok s ∧
    s.msgs = l ++ [m₀] ∧ s.pos = 4 * k.size + 4 * p.first.words.length ∧
    TLPAssembler.ChainPasses ((TLPHdr.tgtID.get w).setWidth 8) ((TLPHdr.srcID.get w).setWidth 8) p.bytes m₀ 0 p.chain s

/-! ### Chained requests -/

section Chains

variable {t : BitVec 8} {tgtID srcID msgCredit : BitVec 8} {b : List (BitVec 8)} {m m' m₀ : IMsg} {s s' : Loop} {c : ChainedMsg t} {i : ℕ}

theorem isReqChain_of_chainOf {a : Attr} (h : chainOf a = some t) (ht : a.msgType = Msg.typeReq) : MsgReq.isReqChain a = true := by
  have hsnp : MsgSnpReq.isSnpReqChain a = false := by
    rw [MsgSnpReq.isSnpReqChain, ht]
    rfl
  rw [chainOf, hsnp, if_neg Bool.false_ne_true] at h
  by_contra hno
  rw [if_neg fun hc => hno hc.2] at h
  cases h

/-- The word behind the header is taken for a field. -/
theorem chainedFields_ok {pos : ℕ} {p : IMsg × ℕ} (hop : MsgReq.isReqChain m.attr = true) (h : MsgReq.extractFields b m pos = .ok p) :
    p = (m, pos + 4) := by
  rw [MsgReq.extractFields] at h
  obtain ⟨v, -, h⟩ := exists_of_bind h
  rw [if_pos hop] at h
  exact (Except.ok.inj h).symm

/-- What comes before the tail of a chained request: the header, and the word behind it, which is passed over. -/
theorem chainedReq_extracted (hw : readWord b 0 = some c.head) (ht : (header c.head).msgType = Msg.typeReq)
    (hm : TLPAssembler.extractCCIXMessage tgtID srcID msgCredit b = .ok m) :
    ∃ m₁ : IMsg, m₁.attr.msgLen = (header c.head).msgLen ∧ m₁.dataLength = 64 ∧ m₁.byteEnableLength = 0 ∧
      MsgReq.isReqChain m₁.attr = true ∧ reqTail b (m₁, 8) = .ok m := by
  have hop : MsgReq.isReqChain (header c.head) = true := isReqChain_of_chainOf c.chained ht
  rw [TLPAssembler.extractCCIXMessage] at hm
  split at hm
  · cases hm
  · rw [getNext_of_some hw, ok_bind, TLPAssembler.newMsg, if_pos (show (IMsg.ofHeader tgtID srcID msgCredit c.head).attr.msgType = _ from ht),
      req_behindExtensions hw (extractExtensions_none c.ext)] at hm
    obtain ⟨p, hp, hm⟩ := exists_of_bind hm
    obtain rfl := chainedFields_ok (by exact hop) hp
    exact ⟨_, rfl, rfl, rfl, hop, hm⟩

/-- The tail keeps the byte enables and takes the data from there on. -/
theorem parseTail_ok {may : Bool} {pos : ℕ} (h : m.parseTail b may pos = .ok m') : m'.byteEnableLength = m.byteEnableLength ∧
    (m.getTailSize pos = 0 ∧ m' = m ∨ 0 < m.getTailSize pos ∧ m.getTailSize pos ≤ cachelineSz ∧ m'.dataLength = m.getTailSize pos) := by
  rw [IMsg.parseTail] at h
  split at h
  case isTrue hz =>
    obtain rfl := Except.ok.inj h
    exact ⟨rfl, .inl ⟨hz, rfl⟩⟩
  case isFalse hz =>
    split at h
    · obtain ⟨m₁, h₁, h₂⟩ := exists_of_bind h
      rw [IMsg.parseData] at h₁
      split at h₁
      case isTrue hfit =>
        obtain rfl := Except.ok.inj h₁
        obtain rfl := Except.ok.inj h₂
        exact ⟨rfl, .inr ⟨Nat.pos_of_ne_zero hz, by omega, rfl⟩⟩
      case isFalse => cases h₁
    · cases h

theorem parseByteEnables_ok {n pos p : ℕ} (h : m.parseByteEnables b n pos = .ok (m', p)) :
    m'.attr = m.attr ∧ m'.byteEnableLength = cachelineSz ∧ p = (pos + (n - 1) / 8 + 3) / 4 * 4 := by
  rw [IMsg.parseByteEnables] at h
  split at h
  · obtain ⟨rfl, rfl⟩ := Prod.mk.inj (Except.ok.inj h)
    exact ⟨rfl, rfl, rfl⟩
  · cases h

/-- **A chained request is not extracted as it was packed.** -/
theorem not_carried_req (hw : readWord b 0 = some c.head) (ht : (header c.head).msgType = Msg.typeReq)
    (hm : TLPAssembler.extractCCIXMessage tgtID srcID msgCredit b = .ok m) (hdata : c.data ≠ [] → m.dataLength = 4 * c.data.length)
    (hbe : m.byteEnableLength = 0 ↔ c.byteEnables = []) : False := by
  obtain ⟨m₁, hlen, hdl, hbel, hop, htail⟩ := chainedReq_extracted hw ht hm
  have hl := c.msgLen
  have hle := c.byteEnables_le
  have hpos : c.data = [] ∨ c.data ≠ [] ∧ 0 < c.data.length := by
    rcases eq_or_ne c.data [] with h | h
    · exact .inl h
    · exact .inr ⟨h, List.length_pos_iff.2 h⟩
  have hsize : ∀ pos, m₁.getTailSize pos = (4 * (1 + c.byteEnables.length + c.data.length) + 2 ^ 32 - pos) % 2 ^ 32 := fun pos => by
    rw [IMsg.getTailSize, hlen, hl]
  rw [reqTail, MsgReq.extractByteEnables, hop, if_pos rfl] at htail
  obtain ⟨⟨m₂, pos⟩, hbytes, htail⟩ := exists_of_bind htail
  dsimp only at hbytes htail
  obtain ⟨hkeep, hend⟩ := parseTail_ok htail
  split at hbytes
  case isTrue hlong =>
    -- byte enables are read, from the second word of theirs on, so the data is short by a word
    obtain ⟨hattr, hbel₂, rfl⟩ := parseByteEnables_ok hbytes
    have hsome : c.byteEnables ≠ [] := fun h => absurd (hbel₂.symm.trans (hkeep.symm.trans (hbe.2 h))) (by decide)
    have hbpos := List.length_pos_iff.2 hsome
    have hsize₂ : m₂.getTailSize 16 = _ := (congrArg (fun a : Attr => (4 * a.msgLen.toNat + 2 ^ 32 - 16) % 2 ^ 32) hattr).trans (hsize 16)
    rw [show (8 + (cachelineSz - 1) / 8 + 3) / 4 * 4 = 16 from rfl] at hend
    rw [hsize, cachelineSz] at hlong
    rw [cachelineSz] at hend
    rcases hpos with hnone | ⟨hne, -⟩
    · rw [hnone, List.length_nil] at hsize₂ hlong
      omega
    · have hwhole := hdata hne
      omega
  case isFalse hshort =>
    -- no byte enables are read, and the data begins behind its first word
    obtain ⟨rfl, rfl⟩ := Prod.mk.inj (Except.ok.inj hbytes)
    have hnone : c.byteEnables = [] := hbe.1 (hkeep.trans hbel)
    have hsize₁ := hsize 8
    rw [hnone, List.length_nil] at hsize₁ hl
    rw [cachelineSz] at hshort
    rcases hpos with hno | ⟨hne, -⟩
    · rw [hno, List.length_nil] at hsize₁
      omega
    · have hwhole := hdata hne
      rcases hend with ⟨hz, rfl⟩ | ⟨hpos, -, hdl'⟩
      · omega
      · omega

/-- What is got from the message before leaves the data as it is. -/
theorem setup_keeps {l : List IMsg} (h : TLPAssembler.setup l m = .ok m') :
    m'.dataLength = m.dataLength ∧ m'.byteEnableLength = m.byteEnableLength := by
  rw [setup_chainOf] at h
  cases hc : chainOf m.attr with
  | none =>
    rw [hc] at h
    obtain rfl := Except.ok.inj h
    exact ⟨rfl, rfl⟩
  | some t =>
    rw [hc, Option.elim_some, TLPAssembler.setupChain] at h
    split at h
    · obtain rfl := Except.ok.inj h
      exact ⟨rfl, rfl⟩
    · cases h

/-! ### Chained snoop requests -/

theorem type_of_chainOf {a : Attr} (h : chainOf a = some t) : t = Msg.typeReq ∨ t = Msg.typeSnpReq := by
  rw [chainOf] at h
  split at h
  · exact .inl (Option.some.inj h).symm
  · split at h
    · exact .inr (Option.some.inj h).symm
    · cases h

/-- **The loop does not go on by the length of a chained message** but by that of the one before. -/
theorem advanced_of_chained {w : BitVec 32} {l : List IMsg} (hp : Passed s w s') (hc : chainOf (header w) = some t) (hs : s.msgs = l ++ [m₀])
    (ht : m₀.attr.msgType = t) : s'.pos = s.pos + 4 * m₀.attr.msgLen.toNat := by
  obtain ⟨m, -, -, hpos, hlast⟩ := hp.msgs
  have hfound : TLPAssembler.lookupPrev (l ++ [m₀]) t = some m₀ := by
    rw [TLPAssembler.lookupPrev, List.reverse_append, List.reverse_singleton, List.singleton_append, List.find?_cons_of_pos (by simp [ht])]
  rw [hc, Option.elim_some, last_seenOf, hs, hfound] at hlast
  rw [hpos, ← Option.some.inj hlast]

end Chains

/-! ### TLPs with chains -/

section TLPs

variable {k : TLPHdr} {t : BitVec 8} {p : ChainTLP k t} {l : List IMsg}

theorem drop_bytesOf (u v : List (BitVec 32)) : (bytesOf (u ++ v)).drop (4 * u.length) = bytesOf v := by
  rw [bytesOf_append, ← length_bytesOf, List.drop_left]

theorem ChainTLP.drop_hdr (p : ChainTLP k t) : p.bytes.drop (4 * k.size) = bytesOf (p.first.words ++ (p.chain.flatMap ChainedMsg.words ++ p.rest)) := by
  rw [ChainTLP.bytes, ← p.length_hdr, drop_bytesOf]

theorem ChainTLP.drop_first (p : ChainTLP k t) :
    p.bytes.drop (4 * k.size + 4 * p.first.words.length) = bytesOf (p.chain.flatMap ChainedMsg.words ++ p.rest) := by
  rw [← List.drop_drop, p.drop_hdr, drop_bytesOf]

theorem ChainTLP.readWord_first (p : ChainTLP k t) : readWord (p.bytes.drop (4 * k.size)) 0 = some p.first.head := by
  rw [p.drop_hdr]
  exact readWord_bytesOf _ 0

/-- What the pass over the first message leaves. -/
theorem ChainTLP.passed_first {w : BitVec 32} {s : Loop} (p : ChainTLP k t) (hp : Passed (TLPAssembler.start k w l) p.first.head s) :
    ∃ m₀, s.msgs = l ++ [m₀] ∧ m₀.attr.msgType = t ∧ m₀.attr.msgLen = (header p.first.head).msgLen ∧
      s.pos = 4 * k.size + 4 * p.first.words.length := by
  obtain ⟨m₀, hmsgs, htype, hpos, hlen⟩ := hp.msgs
  rw [p.first.unchained] at hlen
  have hlen' : m₀.attr.msgLen = (header p.first.head).msgLen := (Option.some.inj hlen).symm
  refine ⟨m₀, hmsgs, htype.trans p.first.msgType, hlen', ?_⟩
  rw [hpos, hlen', p.first.msgLen, FirstMsg.words, List.length_cons, Nat.add_comm 1]
  rfl

/-- **No chained message is extracted as it was packed.** -/
theorem ChainTLP.chain_eq_nil (h : p.Carried l) : p.chain = [] := by
  obtain ⟨w, s, m₀, -, hpass, hmsgs, hpos, hchain⟩ := h
  obtain ⟨-, -, hpassed⟩ := pass_spec (s := TLPAssembler.start k w l) ((TLPHdr.tgtID.get w).setWidth 8) ((TLPHdr.srcID.get w).setWidth 8)
    p.readWord_first
  obtain ⟨m₀', hmsgs', htype, hlen, -⟩ := p.passed_first (hpassed s hpass).2
  obtain rfl : m₀ = m₀' := List.singleton_inj.1 (List.append_cancel_left (hmsgs.symm.trans hmsgs'))
  have hfront := p.drop_first
  cases hc : p.chain with
  | nil => rfl
  | cons c cs =>
    rw [hc] at hchain hfront
    obtain ⟨s', m, hpass', hmsgs', hcarried, hpos', -⟩ := hchain
    rw [← hpos] at hfront
    have hw : readWord (p.bytes.drop s.pos) 0 = some c.head := by
      rw [hfront]
      exact readWord_bytesOf _ 0
    exfalso
    rcases type_of_chainOf c.chained with hreq | hsnp
    · rw [TLPAssembler.pass] at hpass'
      obtain ⟨m₁, hm₁, hpass'⟩ := exists_of_bind hpass'
      obtain ⟨m₂, hm₂, hpass'⟩ := exists_of_bind hpass'
      obtain rfl := Except.ok.inj hpass'
      obtain rfl : m₂ = m := List.singleton_inj.1 (List.append_cancel_left hmsgs')
      obtain ⟨hdl, hbel⟩ := setup_keeps hm₂
      exact not_carried_req hw ((msgType_of_chainOf c.chained).trans hreq) hm₁ (fun hne => hdl ▸ hcarried.dataLength hne)
        (hbel ▸ hcarried.byteEnables)
    · obtain ⟨-, -, hpassed'⟩ := pass_spec ((TLPHdr.tgtID.get w).setWidth 8) ((TLPHdr.srcID.get w).setWidth 8) hw
      have hadv := advanced_of_chained (hpassed' s' hpass').2 c.chained hmsgs htype
      obtain ⟨hbe, hdata⟩ := c.of_snp hsnp
      have hlong := p.first.two_le
      rw [hpos', hlen, p.first.msgLen, ChainedMsg.words, hbe, hdata] at hadv
      simp only [List.length_cons, List.nil_append, List.length_nil] at hadv
      omega

theorem ChainTLP.getNext_hdr (p : ChainTLP k t) : ∃ w, getNext p.bytes (4 * (k.size - 1)) = .ok w := by
  have hpos : 0 < k.size := by cases k <;> decide
  have hlt : k.size - 1 < p.hdr.length := by
    rw [p.length_hdr]
    omega
  refine ⟨p.hdr[k.size - 1], getNext_bytesOf ?_⟩
  rw [List.getElem?_append_left hlt, List.getElem?_eq_getElem hlt]

/-- **A TLP is extracted as its chain was packed exactly if there is none** and its first message is extracted. -/
theorem chainCarried_iff (p : ChainTLP k t) (l : List IMsg) : p.Carried l ↔
    p.chain = [] ∧ MsgFits (p.bytes.drop (4 * k.size)) p.first.head ∧ ¬ Refused (p.bytes.drop (4 * k.size)) p.first.head := by
  have hspec := fun w : BitVec 32 => pass_spec (s := TLPAssembler.start k w l) ((TLPHdr.tgtID.get w).setWidth 8)
    ((TLPHdr.srcID.get w).setWidth 8) p.readWord_first
  constructor
  · intro h
    obtain ⟨w, s, m₀, -, hpass, -⟩ := id h
    obtain ⟨htol, -, hpassed⟩ := hspec w
    refine ⟨ChainTLP.chain_eq_nil h, htol.1 ?_, fun hr => (hpassed s hpass).1 (.inl hr)⟩
    rw [hpass]
    exact tolerated_ok s
  · rintro ⟨hnil, hfits, hnot⟩
    obtain ⟨w, hw⟩ := p.getNext_hdr
    obtain ⟨htol, hreported, hpassed⟩ := hspec w
    have hok := htol.2 hfits
    cases hpass : TLPAssembler.pass ((TLPHdr.tgtID.get w).setWidth 8) ((TLPHdr.srcID.get w).setWidth 8) p.bytes (TLPAssembler.start k w l) with
    | error f =>
      obtain rfl := hok f hpass
      rcases hreported hpass with hr | ⟨t', ht', -⟩
      · exact absurd hr hnot
      · rw [p.first.unchained] at ht'
        cases ht'
    | ok s =>
      obtain ⟨m₀, hmsgs, -, -, hpos⟩ := p.passed_first (hpassed s hpass).2
      exact ⟨w, s, m₀, hw, hpass, hmsgs, hpos, by rw [hnil]; exact trivial⟩

/-- A read of a line, and one that is chained to it. -/
def chainedRead : ChainTLP .opt Msg.typeReq where
  hdr := [0x40704004]
  length_hdr := rfl
  first := { head := 0x08c00000, tail := [0x60000000, 0x80000040], msgType := rfl, unchained := rfl, msgLen := rfl, two_le := le_rfl }
  chain := [{ head := 0x084004f0, byteEnables := [], data := [], chained := rfl, ext := rfl, msgLen := rfl, byteEnables_le := by decide,
              of_snp := fun _ => ⟨rfl, rfl⟩ }]
  rest := []

/-- The chained read is not extracted. -/
theorem not_carried_chainedRead : ¬ chainedRead.Carried [] := fun h => nomatch ChainTLP.chain_eq_nil h

end TLPs

end LibSystemCTLM.Ccix
