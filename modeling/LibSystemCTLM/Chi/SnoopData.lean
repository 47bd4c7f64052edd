import LibSystemCTLM.Chi.StashPull
import LibSystemCTLM.Foundation.Runs

/-!
# The data of a snoop response

A snoop response that has data points at the bytes of the line (`SetData`), and so does the `CompData` that goes to the
requester (`SetCompData`). The bytes are read when a transmit thread sends the response (`tx_thread` of `cache-chi.h`), or
when `TransmitOnTxDatChannel` copies what is forwarded, after the response to the home node was sent. A copy-back has bytes
of its own instead, copied when it is set up.

So the data is that of the line when the snoop was handled exactly if the line still holds it when it is read. What is
forwarded behind a response without data has no byte enables, so there the line must have had all of them
(`snapshot_iff`).

## The model

One line, and the transmit threads of the two channels. A thread takes a transaction, sends it, and hands it on
(`ProcessSnp`), and anything can happen between these: a `rewrite` of the line is a store, or a refill for any address.
-/

namespace LibSystemCTLM.Chi.SnoopData

open Foundation Tlm CacheLine StashPull

inductive Snoop where
  | snp (op : SnpOpcode)
  | stash (op : StashOpcode)

/-- The `switch` of `HandleSnp`. -/
def handle (retToSrc doNotDataPull : Bool) (l : CacheLine) : Snoop → CacheLine × SnpResp
  | .snp op => l.snoop retToSrc op
  | .stash .snpUniqueStash => ((handleSnpUniqueStash doNotDataPull l).1, (handleSnpUniqueStash doNotDataPull l).2.resp)
  | .stash .snpMakeInvalidStash => ((handleSnpMakeInvalidStash doNotDataPull l).1, (handleSnpMakeInvalidStash doNotDataPull l).2.resp)
  | .stash .snpStashUnique => ((handleSnpStashUnique doNotDataPull l).1, (handleSnpStashUnique doNotDataPull l).2.resp)
  | .stash .snpStashShared => ((handleSnpStashShared doNotDataPull l).1, (handleSnpStashShared doNotDataPull l).2.resp)

structure SnpRespTxn where
  resp : SnpResp
  /-- `m_dataToReqNode`. -/
  dataToReqNode : Bool
  /-- `m_dummy_data`, which is what `m_gp` has unless it points at the line. -/
  dummyData : ℕ → Byte := fun _ => 0
  /-- The line when the snoop was handled. -/
  held : CacheLine

/-- `m_dataToHomeNode`. -/
def SnpRespTxn.dataToHomeNode (t : SnpRespTxn) : Bool :=
  match t.resp.opcode with
  | .snpRespData | .snpRespDataPtl | .snpRespDataFwded => true
  | .snpResp | .snpRespFwded => false

/-- What is sent on the channel of data, for the transaction of the line `held`. -/
structure Flit where
  data : ℕ → Byte
  byteEnable : ℕ → Bool
  held : CacheLine

/-- What `m_gp` points at. Without byte enables, all bytes are enabled. -/
def SnpRespTxn.gp (t : SnpRespTxn) (l : CacheLine) : Flit :=
  if t.dataToHomeNode = true then ⟨l.data, l.byteEnable, t.held⟩ else ⟨t.dummyData, fun _ => true, t.held⟩

/-- `TxChannel`, and what its thread is sending. -/
structure TxChannel where
  txList : List SnpRespTxn := []
  sending : Option SnpRespTxn := none

inductive Channel where
  | rsp | dat
  deriving DecidableEq

structure State where
  line : CacheLine
  rsp : TxChannel := {}
  dat : TxChannel := {}
  /-- The flits on the channel of data. -/
  sent : List Flit := []

inductive Event where
  /-- The line is written, or refilled. -/
  | rewrite (l : CacheLine)
  | handleSnp (op : Snoop) (addr : Addr) (nonSecure retToSrc doNotDataPull : Bool)
  /-- A thread takes the next transaction, and `b_transport` reads its payload. -/
  | transport (c : Channel)
  /-- The thread hands the transaction on. -/
  | processSnp (c : Channel)

namespace State

variable (s : State)

def channel : Channel → TxChannel
  | .rsp => s.rsp
  | .dat => s.dat

def handleSnp (op : Snoop) (addr : Addr) (nonSecure retToSrc doNotDataPull : Bool) : State :=
  if s.line.inCache addr nonSecure = true then
    let (l, r) := handle retToSrc doNotDataPull s.line op
    let t : SnpRespTxn := { resp := r, dataToReqNode := r.compData.isSome, held := s.line }
    if t.dataToHomeNode = true then { s with line := l, dat := { s.dat with txList := s.dat.txList ++ [t] } }
    else { s with line := l, rsp := { s.rsp with txList := s.rsp.txList ++ [t] } }
  else { s with rsp := { s.rsp with txList := s.rsp.txList ++ [{ resp := {}, dataToReqNode := false, held := s.line }] } }

def transport (c : Channel) : State :=
  match (s.channel c).sending, (s.channel c).txList with
  | none, t :: ts =>
    match c with
    | .rsp => { s with rsp := ⟨ts, some t⟩ }
    | .dat => { s with dat := ⟨ts, some t⟩, sent := s.sent ++ [t.gp s.line] }
  | _, _ => s

/-- The copy of what is forwarded: onto itself, if `m_gp` points at the line. -/
def forward (t : SnpRespTxn) : SnpRespTxn :=
  { t with dataToReqNode := false, dummyData := if t.dataToHomeNode = true then t.dummyData else s.line.data }

/-- `ProcessSnp`. A `CompAck` is not followed here. -/
def processSnp (c : Channel) : State :=
  match (s.channel c).sending with
  | none => s
  | some t =>
    let ts := if t.dataToReqNode = true then [s.forward t] else []
    match c with
    | .rsp => { s with rsp := { s.rsp with sending := none }, dat := { s.dat with txList := s.dat.txList ++ ts } }
    | .dat => { s with dat := ⟨s.dat.txList ++ ts, none⟩ }

def step : Event → State
  | .rewrite l => { s with line := l }
  | .handleSnp op addr nonSecure retToSrc doNotDataPull => s.handleSnp op addr nonSecure retToSrc doNotDataPull
  | .transport c => s.transport c
  | .processSnp c => s.processSnp c

def run (es : List Event) : State := es.foldl step s

end State

/-! ### Snapshots -/

section Snapshots

variable {s s₀ : State} {e : Event} {es : List Event} {t : SnpRespTxn} {ts : List SnpRespTxn} {c : Channel}

/-- The flit has the data and the byte enables that the line held. -/
def Flit.Held (f : Flit) : Prop := ∀ k < 64, f.data k = f.held.data k ∧ f.byteEnable k = f.held.byteEnable k

/-- All data that was sent is that of the line when its snoop was handled. -/
def Snapshot (s : State) : Prop := ∀ f ∈ s.sent, f.Held

/-- The line that a step reads is the one that was snooped: when a response is sent that points at it, and when what is
forwarded behind a response without data is copied. -/
def Kept (s : State) : Event → Prop
  | .transport .dat => s.dat.sending = none → ∀ t ∈ s.dat.txList.head?, t.dataToHomeNode = true →
      ∀ k < 64, s.line.data k = t.held.data k ∧ s.line.byteEnable k = t.held.byteEnable k
  | .processSnp c => ∀ t ∈ (s.channel c).sending, t.dataToReqNode = true → t.dataToHomeNode = false →
      ∀ k < 64, s.line.data k = t.held.data k ∧ t.held.byteEnable k = true
  | _ => True

/-- The transaction points at the line, or has what the line held. -/
def SnpRespTxn.Ready (t : SnpRespTxn) : Prop :=
  t.dataToHomeNode = false → ∀ k < 64, t.dummyData k = t.held.data k ∧ t.held.byteEnable k = true

/-- Nothing wrong was sent, and nothing wrong was copied. -/
structure Right (s : State) : Prop where
  sent : Snapshot s
  ready : ∀ t ∈ s.dat.txList, t.Ready

/-! ### Steps -/

theorem held_gp_iff (t : SnpRespTxn) (l : CacheLine) : (t.gp l).Held ↔ t.Ready ∧
    (t.dataToHomeNode = true → ∀ k < 64, l.data k = t.held.data k ∧ l.byteEnable k = t.held.byteEnable k) := by
  rw [SnpRespTxn.gp, SnpRespTxn.Ready]
  cases hhome : t.dataToHomeNode with
  | true => exact ⟨fun h => ⟨nofun, fun _ => h⟩, fun h => h.2 rfl⟩
  | false =>
    refine ⟨fun h => ⟨fun _ k hk => ⟨(h k hk).1, (h k hk).2.symm⟩, nofun⟩, fun h k hk => ?_⟩
    obtain ⟨hdata, hbyte⟩ := h.1 rfl k hk
    exact ⟨hdata, hbyte.symm⟩

theorem ready_forward_iff (s : State) (t : SnpRespTxn) :
    (s.forward t).Ready ↔ (t.dataToHomeNode = false → ∀ k < 64, s.line.data k = t.held.data k ∧ t.held.byteEnable k = true) := by
  refine forall_congr' fun (hhome : t.dataToHomeNode = false) => ?_
  simp only [State.forward, hhome, Bool.false_eq_true, if_false]

/-- What is put behind the list must be ready. -/
theorem right_append_iff (s : State) (ts : List SnpRespTxn) (hsent : s₀.sent = s.sent) (hlist : s₀.dat.txList = s.dat.txList ++ ts) :
    Right s₀ ↔ Right s ∧ ∀ t ∈ ts, t.Ready := by
  constructor
  · intro h
    refine ⟨⟨?_, fun t ht => h.ready t (hlist ▸ List.mem_append_left _ ht)⟩, fun t ht => h.ready t (hlist ▸ List.mem_append_right _ ht)⟩
    rw [Snapshot, ← hsent]
    exact h.sent
  · rintro ⟨hs, hts⟩
    refine ⟨?_, fun t ht => ?_⟩
    · rw [Snapshot, hsent]
      exact hs.sent
    · rw [hlist] at ht
      exact (List.mem_append.1 ht).elim (hs.ready t) (hts t)

theorem right_of_same (hsent : s₀.sent = s.sent) (hlist : s₀.dat.txList = s.dat.txList) : Right s₀ ↔ Right s := by
  rw [right_append_iff s [] hsent (by rw [hlist, List.append_nil])]
  exact and_iff_left (List.forall_mem_nil _)

theorem right_handleSnp_iff {op : Snoop} {addr : Addr} {nonSecure retToSrc doNotDataPull : Bool} :
    Right (s.handleSnp op addr nonSecure retToSrc doNotDataPull) ↔ Right s := by
  rw [State.handleSnp]
  split_ifs with hin
  · simp only
    split_ifs with hhome
    · refine Iff.trans (right_append_iff s [_] rfl rfl) (and_iff_left (List.forall_mem_singleton.2 fun hfalse => ?_))
      exact absurd (hhome.symm.trans hfalse) nofun
    · exact right_of_same rfl rfl
  · exact right_of_same rfl rfl

/-- What is taken from the list must be sent as it was held. -/
theorem right_cons_iff (h : s.dat.txList = t :: ts) :
    Right { s with dat := ⟨ts, some t⟩, sent := s.sent ++ [t.gp s.line] } ↔ Right s ∧ (t.gp s.line).Held := by
  constructor
  · intro h'
    have hheld := h'.sent _ (List.mem_append_right _ (List.mem_singleton_self _))
    refine ⟨⟨fun f hf => h'.sent f (List.mem_append_left _ hf), ?_⟩, hheld⟩
    rw [h]
    exact List.forall_mem_cons.2 ⟨((held_gp_iff t s.line).1 hheld).1, h'.ready⟩
  · rintro ⟨hs, hheld⟩
    refine ⟨fun f hf => ?_, fun u hu => hs.ready u (h ▸ List.mem_cons_of_mem t hu)⟩
    rcases List.mem_append.1 hf with hf | hf
    · exact hs.sent f hf
    · obtain rfl := List.mem_singleton.1 hf
      exact hheld

theorem right_transport_iff (c : Channel) : Right (s.transport c) ↔ Right s ∧ Kept s (.transport c) := by
  rw [State.transport]
  cases c with
  | rsp =>
    have hkept : Kept s (.transport .rsp) := trivial
    rw [and_iff_left hkept]
    split <;> exact right_of_same rfl rfl
  | dat =>
    rw [Kept]
    cases hsending : s.dat.sending with
    | some u => simp [State.channel, hsending]
    | none =>
      cases hlist : s.dat.txList with
      | nil => simp [State.channel, hsending, hlist]
      | cons t ts =>
        simp only [State.channel, hsending, hlist, List.head?_cons, Option.mem_def, Option.some.injEq, forall_eq', forall_const]
        rw [right_cons_iff hlist, held_gp_iff]
        exact and_congr_right fun hs => and_iff_right (hs.ready t (hlist ▸ List.mem_cons_self))

theorem right_processSnp_iff (c : Channel) : Right (s.processSnp c) ↔ Right s ∧ Kept s (.processSnp c) := by
  rw [State.processSnp, Kept]
  cases hsending : (s.channel c).sending with
  | none => simp
  | some t =>
    have hready : (∀ u ∈ if t.dataToReqNode = true then [s.forward t] else [], u.Ready) ↔
        ∀ u ∈ some t, u.dataToReqNode = true → u.dataToHomeNode = false →
          ∀ k < 64, s.line.data k = u.held.data k ∧ u.held.byteEnable k = true := by
      simp only [Option.mem_def, Option.some.injEq, forall_eq']
      split_ifs with hreq
      · rw [List.forall_mem_singleton, ready_forward_iff, forall_prop_of_true hreq]
      · exact iff_of_true (List.forall_mem_nil _) fun h => absurd h hreq
    rw [← hready]
    cases c with
    | rsp => exact right_append_iff s _ rfl rfl
    | dat => exact right_append_iff s _ rfl rfl

/-- **What a step may do**: everything, but to read a line that is not the one that was snooped. -/
theorem right_step_iff (s : State) (e : Event) : Right (s.step e) ↔ Right s ∧ Kept s e := by
  cases e with
  | rewrite l =>
    have hkept : Kept s (.rewrite l) := trivial
    rw [and_iff_left hkept]
    exact right_of_same rfl rfl
  | handleSnp op addr nonSecure retToSrc doNotDataPull =>
    have hkept : Kept s (.handleSnp op addr nonSecure retToSrc doNotDataPull) := trivial
    rw [and_iff_left hkept]
    exact right_handleSnp_iff
  | transport c => exact right_transport_iff c
  | processSnp c => exact right_processSnp_iff c

/-- **The data that is sent is that of the line when the snoop was handled**, in every run each step of which reads a line that still
holds it. Where all has been sent, only in these. -/
theorem snapshot_iff (hstart : s₀.sent = [] ∧ s₀.dat.txList = []) :
    (RunOk (fun s e => some (s.step e)) Kept s₀ es → Snapshot (s₀.run es)) ∧
      ((s₀.run es).dat.txList = [] → Snapshot (s₀.run es) → RunOk (fun s e => some (s.step e)) Kept s₀ es) := by
  have h₀ : Right s₀ := by
    refine ⟨?_, ?_⟩
    · rw [Snapshot, hstart.1]
      exact List.forall_mem_nil _
    · rw [hstart.2]
      exact List.forall_mem_nil _
  have hrun : Right (s₀.run es) ↔ RunOk (fun s e => some (s.step e)) Kept s₀ es :=
    foldl_iff_runOk (fun s e h => ((right_step_iff s e).1 h).1) (fun s e _ hs => (right_step_iff s e).trans (and_iff_right hs))
      (fun _ _ (_ : True) _ => (trivial : True)) trivial h₀
  refine ⟨fun h => (hrun.2 h).sent, fun hempty h => hrun.1 ⟨h, ?_⟩⟩
  rw [hempty]
  exact List.forall_mem_nil _

end Snapshots

/-! ### A line that is refilled -/

/-- A cache with one line, of address 0, that is dirty. -/
def dirtyLine : State := { line := { valid := true, dirty := true, data := fun _ => 1 } }

/-- `SnpUnique`, of which the data is sent at once. -/
theorem snapshot_snpUnique : Snapshot (dirtyLine.run [.handleSnp (.snp .snpUnique) 0 false false false, .transport .dat,
    .rewrite { valid := true, tag := 64 }, .processSnp .dat]) := by
  refine (snapshot_iff ⟨rfl, rfl⟩).1 ⟨trivial, ?_⟩
  rintro _ ⟨⟩
  refine ⟨fun _ t ht _ k _ => ?_, ?_⟩
  · obtain rfl := Option.some.inj ht
    exact ⟨rfl, rfl⟩
  · rintro _ ⟨⟩
    refine ⟨trivial, ?_⟩
    rintro _ ⟨⟩
    refine ⟨fun t ht hreq => ?_, fun _ _ => trivial⟩
    obtain rfl := Option.some.inj ht
    cases hreq

/-- The line is refilled before the dirty data was sent. -/
theorem not_snapshot_refilled : ¬ Snapshot (dirtyLine.run [.handleSnp (.snp .snpUnique) 0 false false false,
    .rewrite { valid := true, tag := 64 }, .transport .dat]) := by
  intro h
  have hdata := (h _ List.mem_cons_self 0 (by decide)).1
  revert hdata
  decide

end LibSystemCTLM.Chi.SnoopData
