import LibSystemCTLM.Foundation.Instances
import Mathlib.Algebra.BigOperators.Group.List.Basic
import Mathlib.Algebra.Order.Ring.Nat
import Mathlib.Data.List.Basic
import Mathlib.Data.Nat.Notation

/-!
# When a transaction is done

Each kind of transaction of a requester keeps track of the responses and the data that it got, and is done once it has them
all and has sent what it is to send (`Done` of `txns-rn.h`). There are several orders for what is to come: `Comp` and
`DBIDResp`, the data in beats, and with a read the response apart from the data (`RespSepData`) or a `ReadReceipt`.

A `ReadTxn` takes the response for given as soon as it has all data. If it is behind the data then, the read is done too early, or
never: it does not take the receipt any more. A data pull takes one beat only. Else a transaction is done exactly when nothing
is outstanding (`done_of_outstanding`, `outstanding_of_done`).

## The model

The status of the payload is `incomplete` while there is something to send, from `SetupWriteDat` or `SetupCompAck` on. The
request was sent, and what a retry takes is behind.
-/

namespace LibSystemCTLM.Chi.TxnIDs

inductive Kind where
  /-- `ReadTxn`: whether it waits for a receipt (a non-coherent read that is ordered), and whether it sends a `CompAck`. -/
  | read (ordered expCompAck : Bool)
  /-- `DatalessTxn`. -/
  | dataless (expCompAck : Bool)
  /-- `WriteTxn`. -/
  | write (expCompAck : Bool)
  /-- `AtomicTxn`. -/
  | atomic (inboundLen : ℕ)
  /-- `DVMOpTxn`. -/
  | dvmOp
  /-- `SnpRespTxn` with a data pull. -/
  | pull
  deriving DecidableEq

/-- A response, or a beat of data of some length. -/
inductive Msg where
  | comp | dbidResp | compDBIDResp | rspSepData | readReceipt
  | compData (len : ℕ)
  | dataSepResp (len : ℕ)
  deriving DecidableEq

structure Txn where
  kind : Kind
  gotComp : Bool := false
  gotDBID : Bool := false
  gotRspSepData : Bool := false
  gotReadReceipt : Bool := true
  gotDataSepRsp : Bool := false
  gotCompData : Bool := false
  sentCompAck : Bool := true
  received : ℕ := 0
  /-- Of a pull: it is in the table. -/
  registered : Bool := true
  /-- The status of `m_gp`. -/
  incomplete : Bool := false

/-- The constructors, up to where the request was sent. -/
def Txn.start (k : Kind) : Txn :=
  match k with
  | .read ordered _ => { kind := k, gotReadReceipt := !ordered }
  | .write expCompAck => { kind := k, sentCompAck := !expCompAck }
  | .dataless _ | .atomic _ | .dvmOp | .pull => { kind := k }

namespace Txn

variable (t : Txn)

/-- Data of a read: all of it is the response, too. -/
def readData (len : ℕ) : Txn :=
  if t.received + len = 64 then
    { t with received := t.received + len, gotRspSepData := true, gotDataSepRsp := true, incomplete := true }
  else { t with received := t.received + len }

/-- `HandleRxRsp` and `HandleRxDat`. What is not handled changes nothing. -/
def handleRx (m : Msg) : Txn :=
  match t.kind, m with
  | .read _ _, .rspSepData => if t.gotRspSepData = false then { t with gotRspSepData := true, gotReadReceipt := true } else t
  | .read _ _, .readReceipt => if t.gotRspSepData = false then { t with gotReadReceipt := true } else t
  | .read _ _, .compData len => if t.gotRspSepData = false ∧ t.gotDataSepRsp = false then t.readData len else t
  | .read _ _, .dataSepResp len => if t.gotDataSepRsp = false then t.readData len else t
  | .dataless expCompAck, .comp => if t.gotComp = false then { t with gotComp := true, incomplete := expCompAck } else t
  | .write _, .comp | .dvmOp, .comp => if t.gotComp = false then { t with gotComp := true } else t
  | .write _, .dbidResp | .dvmOp, .dbidResp | .atomic _, .dbidResp =>
    if t.gotDBID = false then { t with gotDBID := true, incomplete := true } else t
  | .write _, .compDBIDResp =>
    if t.gotDBID = false ∧ t.gotComp = false then { t with gotDBID := true, gotComp := true, incomplete := true } else t
  | .atomic inboundLen, .compData len =>
    if t.gotCompData = false then { t with received := t.received + len, gotCompData := decide (t.received + len = inboundLen) } else t
  | .pull, .compData len =>
    if t.registered = true ∧ t.gotCompData = false then
      { t with registered := false, received := t.received + len, gotCompData := decide (t.received + len = 64),
               incomplete := decide (t.received + len = 64) }
    else t
  | _, _ => t

/-- There is something on the list of a channel. -/
def toSend : Bool :=
  match t.kind with
  | .read _ expCompAck => expCompAck && t.gotRspSepData && t.gotDataSepRsp && t.incomplete
  | .dataless expCompAck => expCompAck && t.gotComp && t.incomplete
  | .write _ | .atomic _ | .dvmOp => t.gotDBID && t.incomplete
  | .pull => t.gotCompData && t.incomplete

/-- A flit is sent. A write may have a `CompAck` to send behind the data. -/
def transmit : Txn :=
  if t.toSend = true then
    match t.kind with
    | .write _ => if t.sentCompAck = true then { t with incomplete := false } else { t with sentCompAck := true }
    | _ => { t with incomplete := false }
  else t

/-- `Done`. -/
def done : Bool :=
  match t.kind with
  | .read _ expCompAck => t.gotRspSepData && t.gotDataSepRsp && t.gotReadReceipt && (!expCompAck || !t.incomplete)
  | .dataless expCompAck => t.gotComp && (!expCompAck || !t.incomplete)
  | .write _ => t.sentCompAck && t.gotComp && t.gotDBID && !t.incomplete
  | .atomic _ => t.gotCompData && t.gotDBID && !t.incomplete
  | .dvmOp => t.gotComp && t.gotDBID && !t.incomplete
  | .pull => t.gotCompData && !t.incomplete

end Txn

/-! ### What is outstanding -/

/-- The length of a beat. -/
def Msg.len : Msg → ℕ
  | .compData len | .dataSepResp len => len
  | .comp | .dbidResp | .compDBIDResp | .rspSepData | .readReceipt => 0

/-- Beats of data, none of them empty, up to a length. -/
def Beats (ns : List ℕ) (len : ℕ) : Prop := (∀ n ∈ ns, 0 < n) ∧ ns.sum = len ∧ 0 < len

/-- What a transaction is sent, in any order. -/
def Expected : Kind → List Msg → Prop
  | .read ordered _, out => ∃ ns, Beats ns 64 ∧
      (out = ns.map .compData ++ (if ordered = true then [.readReceipt] else []) ∨ out = .rspSepData :: ns.map .dataSepResp)
  | .dataless _, out => out = [.comp]
  | .write _, out => out = [.comp, .dbidResp] ∨ out = [.compDBIDResp]
  | .atomic inboundLen, out => ∃ ns, Beats ns inboundLen ∧ out = .dbidResp :: ns.map .compData
  | .dvmOp, out => out = [.comp, .dbidResp]
  | .pull, out => ∃ ns, Beats ns 64 ∧ out = ns.map .compData

/-- A message comes as it is counted on: no response of a read behind its data, and a pull in one beat. -/
def InOrder (t : Txn) (out : List Msg) (m : Msg) : Prop :=
  match t.kind with
  | .read _ _ => 0 < m.len → t.received + m.len = 64 → out.erase m = []
  | .pull => m.len = 64
  | _ => True

/-! ### What a transaction got -/

section Got

variable {t : Txn} {out : List Msg} {m : Msg} {k : Kind} {ns : List ℕ} {len : ℕ} {ordered expCompAck : Bool} {inboundLen : ℕ}

/-- How much data is outstanding. -/
def outLen (out : List Msg) : ℕ := (out.map Msg.len).sum

/-- A beat, or a message of another kind. -/
def IsBeatOr (beat : ℕ → Msg) (rsp m : Msg) : Prop := m = rsp ∨ ∃ n, 0 < n ∧ m = beat n

/-- A read has all, or data is outstanding: with the response in it, or apart from it. -/
inductive WfRead (t : Txn) (out : List Msg) : Prop where
  | all : out = [] → t.gotRspSepData = true → t.gotDataSepRsp = true → t.gotReadReceipt = true → WfRead t out
  | compData : t.gotDataSepRsp = false → outLen out + t.received = 64 → t.received < 64 → t.gotRspSepData = false →
      (∀ m ∈ out, IsBeatOr .compData .readReceipt m) → (t.gotReadReceipt = true ∨ .readReceipt ∈ out) → WfRead t out
  | sepData : t.gotDataSepRsp = false → outLen out + t.received = 64 → t.received < 64 →
      (∀ m ∈ out, IsBeatOr .dataSepResp .rspSepData m) →
      (t.gotRspSepData = true ∧ t.gotReadReceipt = true ∨ t.gotRspSepData = false ∧ .rspSepData ∈ out) → WfRead t out

/-- `Comp` and `DBIDResp`, apart or not. Behind a `DBIDResp` there is something to send, until the last was sent. -/
inductive WfWrite (t : Txn) (out : List Msg) : Prop where
  | none : out = [.comp, .dbidResp] ∨ out = [.compDBIDResp] → t.gotComp = false → t.gotDBID = false → WfWrite t out
  | comp : out = [.dbidResp] → t.gotComp = true → t.gotDBID = false → WfWrite t out
  | dbid : out = [.comp] → t.gotComp = false → t.gotDBID = true → t.incomplete = true ∨ t.sentCompAck = true → WfWrite t out
  | all : out = [] → t.gotComp = true → t.gotDBID = true → t.incomplete = true ∨ t.sentCompAck = true → WfWrite t out

structure WfAtomic (inboundLen : ℕ) (t : Txn) (out : List Msg) : Prop where
  beats : ∀ m ∈ out, IsBeatOr .compData .dbidResp m
  len : outLen out + t.received = inboundLen
  got : t.gotCompData = decide (t.received = inboundLen)
  dbid : out.count .dbidResp + t.gotDBID.toNat = 1

/-- **What a transaction got, against what is outstanding.** -/
def Wf (t : Txn) (out : List Msg) : Prop :=
  match t.kind with
  | .read _ _ => WfRead t out
  | .dataless _ => out = [.comp] ∧ t.gotComp = false ∨ out = [] ∧ t.gotComp = true
  | .write _ => WfWrite t out
  | .atomic inboundLen => WfAtomic inboundLen t out
  | .dvmOp => WfWrite t out ∧ .compDBIDResp ∉ out ∧ t.sentCompAck = true
  | .pull => (t.registered = true ∧ t.gotCompData = false ∧ t.received = 0 ∧ outLen out = 64 ∧ ∀ m ∈ out, ∃ n, 0 < n ∧ m = .compData n) ∨
      out = [] ∧ t.gotCompData = true

/-! ### Beats -/

theorem outLen_erase (hm : m ∈ out) : m.len + outLen (out.erase m) = outLen out := by
  rw [outLen, outLen, ← List.sum_cons, ← List.map_cons]
  exact ((List.perm_cons_erase hm).symm.map Msg.len).sum_eq

theorem outLen_beats {beat : ℕ → Msg} (hbeat : ∀ n, (beat n).len = n) (ns : List ℕ) : outLen (ns.map beat) = ns.sum := by
  rw [outLen, List.map_map]
  congr 1
  exact (List.map_congr_left fun n _ => hbeat n).trans (List.map_id _)

/-- Without data, nothing is outstanding but the other message. -/
theorem eq_of_outLen_zero {beat : ℕ → Msg} {rsp : Msg} (hbeat : ∀ n, (beat n).len = n) (h : ∀ m ∈ out, IsBeatOr beat rsp m)
    (hlen : outLen out = 0) : ∀ m ∈ out, m = rsp := by
  intro m hm
  rcases h m hm with rfl | ⟨n, hn, rfl⟩
  · rfl
  · have hsum := outLen_erase hm
    rw [hbeat] at hsum
    omega

theorem kind_handleRx (t : Txn) (m : Msg) : (t.handleRx m).kind = t.kind := by
  unfold Txn.handleRx
  split <;> first | rfl | (split_ifs <;> first | rfl | (unfold Txn.readData; split_ifs <;> rfl))

/-- Sending changes only what is to be sent. A write has sent all only behind its `CompAck`. -/
theorem transmit_eq (t : Txn) : ∃ sent incomplete, t.transmit = { t with sentCompAck := sent, incomplete := incomplete } ∧
    (t.sentCompAck = true → sent = true) ∧
      ∀ b, t.kind = .write b → t.incomplete = true ∨ t.sentCompAck = true → incomplete = true ∨ sent = true := by
  unfold Txn.transmit
  split
  · split
    · split_ifs with hsent
      · exact ⟨t.sentCompAck, false, rfl, id, fun _ _ _ => .inr hsent⟩
      · exact ⟨true, t.incomplete, rfl, fun _ => rfl, fun _ _ _ => .inr rfl⟩
    · rename_i hk
      exact ⟨t.sentCompAck, false, rfl, id, fun b hb => absurd hb (hk b)⟩
  · exact ⟨t.sentCompAck, t.incomplete, rfl, id, fun _ _ => id⟩

theorem outLen_append (out out' : List Msg) : outLen (out ++ out') = outLen out + outLen out' := by
  rw [outLen, List.map_append, List.sum_append]
  rfl

theorem beatOr_beats {beat : ℕ → Msg} {rsp : Msg} (h : ∀ n ∈ ns, 0 < n) (hm : m ∈ ns.map beat) : IsBeatOr beat rsp m := by
  obtain ⟨n, hn, rfl⟩ := List.mem_map.1 hm
  exact .inr ⟨n, h n hn, rfl⟩

/-! ### Reads -/

theorem wfRead_start (h : Expected (.read ordered expCompAck) out) : WfRead (.start (.read ordered expCompAck)) out := by
  obtain ⟨ns, ⟨hpos, hsum, -⟩, rfl | rfl⟩ := h
  · refine .compData rfl ?_ (Nat.zero_lt_succ 63) rfl (fun m hm => ?_) ?_
    · rw [outLen_append, outLen_beats fun _ => rfl, hsum]
      cases ordered <;> rfl
    · rcases List.mem_append.1 hm with hm | hm
      · exact beatOr_beats hpos hm
      · split at hm
        · exact .inl (List.mem_singleton.1 hm)
        · cases hm
    · cases ordered with
      | false => exact .inl rfl
      | true => exact .inr (List.mem_append_right _ List.mem_cons_self)
  · refine .sepData rfl ?_ (Nat.zero_lt_succ 63) (fun m hm => ?_) (.inr ⟨rfl, List.mem_cons_self⟩)
    · rw [← List.singleton_append, outLen_append, outLen_beats fun _ => rfl, hsum]
      rfl
    · rcases List.mem_cons.1 hm with rfl | hm
      · exact .inl rfl
      · exact beatOr_beats hpos hm

/-- What is outstanding beside the last data is nothing, so the response came before. -/
theorem not_mem_of_erase {rsp : Msg} (hne : rsp ≠ m) (h : out.erase m = []) : rsp ∉ out := by
  intro hrsp
  have hmem := (List.mem_erase_of_ne hne).2 hrsp
  rw [h] at hmem
  cases hmem

theorem handleRx_rspSepData (hk : t.kind = .read ordered expCompAck) :
    t.handleRx .rspSepData = if t.gotRspSepData = false then { t with gotRspSepData := true, gotReadReceipt := true } else t := by
  unfold Txn.handleRx
  rw [hk]

theorem handleRx_readReceipt (hk : t.kind = .read ordered expCompAck) :
    t.handleRx .readReceipt = if t.gotRspSepData = false then { t with gotReadReceipt := true } else t := by
  unfold Txn.handleRx
  rw [hk]

theorem handleRx_compData (hk : t.kind = .read ordered expCompAck) :
    t.handleRx (.compData len) = if t.gotRspSepData = false ∧ t.gotDataSepRsp = false then t.readData len else t := by
  unfold Txn.handleRx
  rw [hk]

theorem handleRx_dataSepResp (hk : t.kind = .read ordered expCompAck) :
    t.handleRx (.dataSepResp len) = if t.gotDataSepRsp = false then t.readData len else t := by
  unfold Txn.handleRx
  rw [hk]

theorem wfRead_handleRx (hk : t.kind = .read ordered expCompAck) (h : WfRead t out) (hm : m ∈ out) (ho : InOrder t out m) :
    WfRead (t.handleRx m) (out.erase m) := by
  simp only [InOrder, hk] at ho
  have hlen := outLen_erase hm
  cases h with
  | all hout =>
    rw [hout] at hm
    cases hm
  | compData hdata hsum hlt hrsp hbeats hreceipt =>
    have hbeats' : ∀ m' ∈ out.erase m, IsBeatOr .compData .readReceipt m' := fun m' hm' => hbeats m' (List.mem_of_mem_erase hm')
    rcases hbeats m hm with rfl | ⟨n, hn, rfl⟩
    · rw [Msg.len] at hlen
      rw [handleRx_readReceipt hk, if_pos hrsp]
      exact .compData hdata (by dsimp only; omega) hlt hrsp hbeats' (.inl rfl)
    · rw [Msg.len] at hlen ho
      have hne : Msg.readReceipt ≠ .compData n := nofun
      rw [handleRx_compData hk, if_pos ⟨hrsp, hdata⟩, Txn.readData]
      split_ifs with hall
      · have herase := ho hn hall
        exact .all herase rfl rfl (hreceipt.resolve_right (not_mem_of_erase hne herase))
      · refine .compData hdata ?_ ?_ hrsp hbeats' (hreceipt.imp id (List.mem_erase_of_ne hne).2)
        · dsimp only
          omega
        · dsimp only
          omega
  | sepData hdata hsum hlt hbeats hrsp =>
    have hbeats' : ∀ m' ∈ out.erase m, IsBeatOr .dataSepResp .rspSepData m' := fun m' hm' => hbeats m' (List.mem_of_mem_erase hm')
    rcases hbeats m hm with rfl | ⟨n, hn, rfl⟩
    · rw [Msg.len] at hlen
      rw [handleRx_rspSepData hk]
      split_ifs with hfalse
      · exact .sepData hdata (by dsimp only; omega) hlt hbeats' (.inl ⟨rfl, rfl⟩)
      · exact .sepData hdata (by omega) hlt hbeats' (.inl (hrsp.resolve_right fun h => hfalse h.1))
    · rw [Msg.len] at hlen ho
      have hne : Msg.rspSepData ≠ .dataSepResp n := nofun
      rw [handleRx_dataSepResp hk, if_pos hdata, Txn.readData]
      split_ifs with hall
      · have herase := ho hn hall
        exact .all herase rfl rfl (hrsp.resolve_right fun h => not_mem_of_erase hne herase h.2).2
      · refine .sepData hdata ?_ ?_ hbeats' (hrsp.imp id fun h => ⟨h.1, (List.mem_erase_of_ne hne).2 h.2⟩)
        · dsimp only
          omega
        · dsimp only
          omega

/-! ### Writes, atomics and pulls -/

section Writes

variable (hk : (∃ b, t.kind = .write b) ∨ t.kind = .dvmOp)

include hk

theorem handleRx_comp : t.handleRx .comp = if t.gotComp = false then { t with gotComp := true } else t := by
  obtain ⟨b, hk⟩ | hk := hk
  · unfold Txn.handleRx
    rw [hk]
  · unfold Txn.handleRx
    rw [hk]

theorem handleRx_dbidResp : t.handleRx .dbidResp = if t.gotDBID = false then { t with gotDBID := true, incomplete := true } else t := by
  obtain ⟨b, hk⟩ | hk := hk
  · unfold Txn.handleRx
    rw [hk]
  · unfold Txn.handleRx
    rw [hk]

theorem wfWrite_handleRx (hdvm : t.kind = .dvmOp → .compDBIDResp ∉ out) (h : WfWrite t out) (hm : m ∈ out) :
    WfWrite (t.handleRx m) (out.erase m) := by
  cases h with
  | none hout hcomp hdbid =>
    rcases hout with rfl | rfl
    · simp only [List.mem_cons, List.not_mem_nil, or_false] at hm
      rcases hm with rfl | rfl
      · rw [handleRx_comp hk, if_pos hcomp]
        exact .comp rfl rfl hdbid
      · rw [handleRx_dbidResp hk, if_pos hdbid]
        exact .dbid rfl hcomp rfl (.inl rfl)
    · obtain rfl := List.mem_singleton.1 hm
      obtain ⟨b, hk⟩ | hk := hk
      · have heq : t.handleRx .compDBIDResp = { t with gotDBID := true, gotComp := true, incomplete := true } := by
          unfold Txn.handleRx
          rw [hk]
          exact if_pos ⟨hdbid, hcomp⟩
        rw [heq]
        exact .all rfl rfl rfl (.inl rfl)
      · exact absurd hm (hdvm hk)
  | comp hout hcomp hdbid =>
    subst hout
    obtain rfl := List.mem_singleton.1 hm
    rw [handleRx_dbidResp hk, if_pos hdbid]
    exact .all rfl hcomp rfl (.inl rfl)
  | dbid hout hcomp hdbid hsend =>
    subst hout
    obtain rfl := List.mem_singleton.1 hm
    rw [handleRx_comp hk, if_pos hcomp]
    exact .all rfl rfl hdbid hsend
  | all hout =>
    rw [hout] at hm
    cases hm

end Writes

theorem wfAtomic_handleRx (hk : t.kind = .atomic inboundLen) (h : WfAtomic inboundLen t out) (hm : m ∈ out) :
    WfAtomic inboundLen (t.handleRx m) (out.erase m) := by
  have hlen := outLen_erase hm
  have hbeats : ∀ m' ∈ out.erase m, IsBeatOr .compData .dbidResp m' := fun m' hm' => h.beats m' (List.mem_of_mem_erase hm')
  have hsum := h.len
  have hcount := h.dbid
  have hgot := h.got
  rcases h.beats m hm with rfl | ⟨n, hn, rfl⟩
  · have hpos : 0 < out.count .dbidResp := List.count_pos_iff.2 hm
    have hdbid : t.gotDBID = false := by
      cases hd : t.gotDBID with
      | false => rfl
      | true =>
        rw [hd, Bool.toNat_true] at hcount
        omega
    have heq : t.handleRx .dbidResp = { t with gotDBID := true, incomplete := true } := by
      unfold Txn.handleRx
      rw [hk]
      exact if_pos hdbid
    rw [Msg.len] at hlen
    rw [heq]
    refine ⟨hbeats, by dsimp only; omega, hgot, ?_⟩
    rw [List.count_erase_self]
    rw [hdbid, Bool.toNat_false] at hcount
    rw [Bool.toNat_true]
    omega
  · rw [Msg.len] at hlen
    have hdata : t.gotCompData = false := by
      rw [hgot]
      exact decide_eq_false (by omega)
    have heq : t.handleRx (.compData n) =
        { t with received := t.received + n, gotCompData := decide (t.received + n = inboundLen) } := by
      unfold Txn.handleRx
      rw [hk]
      exact if_pos hdata
    have hne : Msg.compData n ≠ .dbidResp := nofun
    rw [heq]
    exact ⟨hbeats, by dsimp only; omega, rfl, by rw [List.count_erase_of_ne hne.symm]; exact hcount⟩

/-! ### All kinds -/

/-- What is expected is outstanding at the start. -/
theorem wf_start (h : Expected k out) : Wf (.start k) out := by
  cases k with
  | read ordered expCompAck => exact wfRead_start h
  | dataless expCompAck => exact .inl ⟨h, rfl⟩
  | write expCompAck => exact .none h rfl rfl
  | atomic inboundLen =>
    obtain ⟨ns, ⟨hpos, hsum, hlt⟩, rfl⟩ := h
    refine ⟨fun m hm => ?_, ?_, (decide_eq_false (Nat.ne_of_lt hlt)).symm, ?_⟩
    · rcases List.mem_cons.1 hm with rfl | hm
      · exact .inl rfl
      · exact beatOr_beats hpos hm
    · rw [← List.singleton_append, outLen_append, outLen_beats fun _ => rfl, hsum]
      exact Nat.zero_add _
    · have hcount : (ns.map Msg.compData).count .dbidResp = 0 := by
        refine List.count_eq_zero.2 fun hmem => ?_
        obtain ⟨n, -, hn⟩ := List.mem_map.1 hmem
        cases hn
      rw [List.count_cons_self, hcount]
      rfl
  | dvmOp =>
    obtain rfl : out = [.comp, .dbidResp] := h
    exact ⟨.none (.inl rfl) rfl rfl, by decide, rfl⟩
  | pull =>
    obtain ⟨ns, ⟨hpos, hsum, -⟩, rfl⟩ := h
    refine .inl ⟨rfl, rfl, rfl, by rw [outLen_beats fun _ => rfl, hsum], fun m hm => ?_⟩
    obtain ⟨n, hn, rfl⟩ := List.mem_map.1 hm
    exact ⟨n, hpos n hn, rfl⟩

theorem wf_handleRx (h : Wf t out) (hm : m ∈ out) (ho : InOrder t out m) : Wf (t.handleRx m) (out.erase m) := by
  simp only [Wf] at h ⊢
  rw [kind_handleRx]
  cases hk : t.kind with
  | read ordered expCompAck =>
    rw [hk] at h
    exact wfRead_handleRx hk h hm ho
  | dataless expCompAck =>
    rw [hk] at h
    rcases h with ⟨rfl, hcomp⟩ | ⟨rfl, -⟩
    · obtain rfl := List.mem_singleton.1 hm
      have heq : t.handleRx .comp = { t with gotComp := true, incomplete := expCompAck } := by
        unfold Txn.handleRx
        rw [hk]
        exact if_pos hcomp
      rw [heq]
      exact .inr ⟨rfl, rfl⟩
    · cases hm
  | write expCompAck =>
    rw [hk] at h
    exact wfWrite_handleRx (.inl ⟨_, hk⟩) (by rw [hk]; nofun) h hm
  | atomic inboundLen =>
    rw [hk] at h
    exact wfAtomic_handleRx hk h hm
  | dvmOp =>
    rw [hk] at h
    obtain ⟨hwrite, hdvm, hsent⟩ := h
    refine ⟨wfWrite_handleRx (.inr hk) (fun _ => hdvm) hwrite hm, fun hmem => hdvm (List.mem_of_mem_erase hmem), ?_⟩
    unfold Txn.handleRx
    rw [hk]
    cases m <;> dsimp only <;> first | exact hsent | (split <;> exact hsent)
  | pull =>
    rw [hk] at h
    simp only [InOrder, hk] at ho
    rcases h with ⟨hreg, hdata, hrec, hsum, hbeats⟩ | ⟨rfl, -⟩
    · obtain ⟨n, hn, rfl⟩ := hbeats m hm
      have hlen := outLen_erase hm
      rw [Msg.len] at hlen ho
      subst ho
      have heq : t.handleRx (.compData 64) = { t with registered := false, received := t.received + 64, gotCompData := true, incomplete := true } := by
        unfold Txn.handleRx
        rw [hk]
        simp only [hreg, hdata, hrec, and_self, if_true, Nat.zero_add, decide_true]
      rw [heq]
      refine .inr ⟨List.eq_nil_iff_forall_not_mem.2 fun m hmem => ?_, rfl⟩
      obtain ⟨n, hn, rfl⟩ := hbeats m (List.mem_of_mem_erase hmem)
      have hrest := outLen_erase hmem
      rw [Msg.len] at hrest
      omega
    · cases hm

theorem WfWrite.of_sent {sent incomplete : Bool} (h : WfWrite t out)
    (hsend : t.incomplete = true ∨ t.sentCompAck = true → incomplete = true ∨ sent = true) :
    WfWrite { t with sentCompAck := sent, incomplete := incomplete } out := by
  cases h with
  | none hout hcomp hdbid => exact .none hout hcomp hdbid
  | comp hout hcomp hdbid => exact .comp hout hcomp hdbid
  | dbid hout hcomp hdbid hs => exact .dbid hout hcomp hdbid (hsend hs)
  | all hout hcomp hdbid hs => exact .all hout hcomp hdbid (hsend hs)

/-- Sending changes nothing of what was got. -/
theorem wf_transmit (h : Wf t out) : Wf t.transmit out := by
  obtain ⟨sent, incomplete, heq, hsent, hsend⟩ := transmit_eq t
  rw [heq]
  simp only [Wf] at h ⊢
  cases hk : t.kind with
  | read ordered expCompAck =>
    rw [hk] at h
    cases h with
    | all hout hrsp hdata hreceipt => exact .all hout hrsp hdata hreceipt
    | compData hdata hsum hlt hrsp hbeats hreceipt => exact .compData hdata hsum hlt hrsp hbeats hreceipt
    | sepData hdata hsum hlt hbeats hrsp => exact .sepData hdata hsum hlt hbeats hrsp
  | dataless expCompAck =>
    rw [hk] at h
    exact h
  | write expCompAck =>
    rw [hk] at h
    have hw := h.of_sent (hsend _ hk)
    rw [hk] at hw
    exact hw
  | atomic inboundLen =>
    rw [hk] at h
    exact ⟨h.beats, h.len, h.got, h.dbid⟩
  | dvmOp =>
    rw [hk] at h
    obtain ⟨hwrite, hdvm, hs⟩ := h
    have hw : WfWrite { t with sentCompAck := sent, incomplete := incomplete } out := hwrite.of_sent fun _ => .inr (hsent hs)
    rw [hk] at hw
    exact ⟨hw, hdvm, hsent hs⟩
  | pull =>
    rw [hk] at h
    exact h

/-! ### Done -/

theorem WfWrite.out_eq_nil (h : WfWrite t out) (hcomp : t.gotComp = true) (hdbid : t.gotDBID = true) : out = [] := by
  cases h with
  | none _ hfalse => exact absurd (hcomp.symm.trans hfalse) nofun
  | comp _ _ hfalse => exact absurd (hdbid.symm.trans hfalse) nofun
  | dbid _ hfalse => exact absurd (hcomp.symm.trans hfalse) nofun
  | all hout => exact hout

theorem WfAtomic.out_eq_nil (h : WfAtomic inboundLen t out) (hdata : t.gotCompData = true) (hdbid : t.gotDBID = true) : out = [] := by
  have hreceived : t.received = inboundLen := of_decide_eq_true (h.got ▸ hdata)
  have hlen : outLen out = 0 := by
    have hsum := h.len
    omega
  have hcount : out.count .dbidResp = 0 := by
    have hone := h.dbid
    rw [hdbid, Bool.toNat_true] at hone
    omega
  refine List.eq_nil_iff_forall_not_mem.2 fun m hm => ?_
  obtain rfl := eq_of_outLen_zero (fun _ => rfl) h.beats hlen m hm
  exact List.count_eq_zero.1 hcount hm

/-- **A transaction that is done has nothing outstanding.** -/
theorem outstanding_of_done (h : Wf t out) (hd : t.done = true) : out = [] := by
  unfold Wf at h
  unfold Txn.done at hd
  cases hk : t.kind with
  | read ordered expCompAck =>
    simp only [hk, Bool.and_eq_true] at h hd
    cases h with
    | all hout => exact hout
    | compData hfalse => exact absurd (hd.1.1.2.symm.trans hfalse) nofun
    | sepData hfalse => exact absurd (hd.1.1.2.symm.trans hfalse) nofun
  | dataless expCompAck =>
    simp only [hk, Bool.and_eq_true] at h hd
    rcases h with ⟨-, hfalse⟩ | ⟨hout, -⟩
    · exact absurd (hd.1.symm.trans hfalse) nofun
    · exact hout
  | write expCompAck =>
    simp only [hk, Bool.and_eq_true] at h hd
    exact h.out_eq_nil hd.1.1.2 hd.1.2
  | atomic inboundLen =>
    simp only [hk, Bool.and_eq_true] at h hd
    exact h.out_eq_nil hd.1.1 hd.1.2
  | dvmOp =>
    simp only [hk, Bool.and_eq_true] at h hd
    exact h.1.out_eq_nil hd.1.1 hd.1.2
  | pull =>
    simp only [hk, Bool.and_eq_true] at h hd
    rcases h with ⟨-, hfalse, -⟩ | ⟨hout, -⟩
    · exact absurd (hd.1.symm.trans hfalse) nofun
    · exact hout

theorem WfWrite.all_of_nil (h : WfWrite t []) : t.gotComp = true ∧ t.gotDBID = true ∧ (t.incomplete = true ∨ t.sentCompAck = true) := by
  cases h with
  | none hout => exact absurd hout nofun
  | comp hout => cases hout
  | dbid hout => cases hout
  | all _ hcomp hdbid hsend => exact ⟨hcomp, hdbid, hsend⟩

/-- **A transaction that has nothing outstanding, and has sent all, is done.** -/
theorem done_of_outstanding (h : Wf t []) (hs : t.toSend = false) : t.done = true := by
  unfold Wf at h
  unfold Txn.toSend at hs
  unfold Txn.done
  cases hk : t.kind with
  | read ordered expCompAck =>
    simp only [hk] at h hs ⊢
    cases h with
    | all _ hrsp hdata hreceipt =>
      rw [hrsp, hdata] at hs
      rw [hrsp, hdata, hreceipt]
      cases expCompAck with
      | false => rfl
      | true =>
        have hs' : t.incomplete = false := hs
        rw [hs']
        rfl
    | compData _ hsum hlt =>
      rw [show outLen [] = 0 from rfl] at hsum
      omega
    | sepData _ hsum hlt =>
      rw [show outLen [] = 0 from rfl] at hsum
      omega
  | dataless expCompAck =>
    simp only [hk] at h hs ⊢
    obtain ⟨-, hcomp⟩ := h.resolve_left fun h => nomatch h.1
    rw [hcomp] at hs ⊢
    cases expCompAck with
    | false => rfl
    | true =>
      have hs' : t.incomplete = false := hs
      rw [hs']
      rfl
  | write expCompAck =>
    simp only [hk] at h hs ⊢
    obtain ⟨hcomp, hdbid, hsend⟩ := h.all_of_nil
    rw [hdbid, Bool.true_and] at hs
    rw [hcomp, hdbid, hs, hsend.resolve_left (by rw [hs]; nofun)]
    rfl
  | atomic inboundLen =>
    simp only [hk] at h hs ⊢
    have hsum : 0 + t.received = inboundLen := h.len
    have hcount : 0 + t.gotDBID.toNat = 1 := h.dbid
    have hdbid : t.gotDBID = true := by
      cases hd : t.gotDBID with
      | true => rfl
      | false =>
        rw [hd] at hcount
        cases hcount
    rw [hdbid, Bool.true_and] at hs
    rw [h.got, hdbid, hs, decide_eq_true (by omega)]
    rfl
  | dvmOp =>
    simp only [hk] at h hs ⊢
    obtain ⟨hcomp, hdbid, -⟩ := h.1.all_of_nil
    rw [hdbid, Bool.true_and] at hs
    rw [hcomp, hdbid, hs]
    rfl
  | pull =>
    simp only [hk] at h hs ⊢
    obtain ⟨-, hdata⟩ := h.resolve_left fun h => nomatch h.2.2.2.1
    rw [hdata, Bool.true_and] at hs
    rw [hdata, hs]
    rfl

end Got

end LibSystemCTLM.Chi.TxnIDs
