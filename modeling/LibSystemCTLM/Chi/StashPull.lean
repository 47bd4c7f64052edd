import LibSystemCTLM.Chi.CacheLine

/-!
# Stash snoops that pull data

A snoop may ask a cache to get its line (`HandleSnpUniqueStash` to `HandleSnpStashShared` of `cache-chi.h`). The
response then says `DataPull`, with a `DBID` under which the `CompData` is to come: the transaction is put into the
table at this ID (`SetupDBID`), fills the line that it was for, sends a `CompAck` and returns the ID.

`HandleSnpStashShared` says `DataPull` without any of that. And of the others, the data is put into the line of the
set, whatever line it is by then: the tag is not looked at, and not set; and the transaction is taken out of the table
at the first flit. So what is pulled gets to its line if it comes in one flit, and finds the line as it was
(`pulled_iff`).

## The model

One line of the cache, the table and the IDs, and one stash snoop. The other transactions take IDs and return them, and
what happens to the line in the meantime is left open.
-/

namespace LibSystemCTLM.Chi.StashPull

open Foundation Tlm CacheLine

inductive StashOpcode where
  | snpUniqueStash | snpMakeInvalidStash | snpStashUnique | snpStashShared
  deriving DecidableEq

/-- An entry of `m_txn`: the transaction of the stash snoop, or another one. -/
inductive Entry where
  | snp
  | other
  deriving DecidableEq

/-- `SnpRespTxn`, from the response on. `m_ids` is set with the `DBID`. -/
structure SnpRespTxn where
  gotCompData : Bool := true
  received : ℕ := 0
  /-- The `CompAck` is on the list of the channel. -/
  compAck : Bool := false
  ids : Option (BitVec 8) := none

/-- A flit of `CompData`. All its bytes are enabled. -/
structure CompData where
  dataID : ℕ
  dataLength : ℕ
  data : ℕ → Byte
  dirty : Bool := false
  shared : Bool := false

structure State where
  /-- `TxnIDs::m_ids`. -/
  ids : List (BitVec 8)
  txn : BitVec 8 → Option Entry
  line : CacheLine
  t : SnpRespTxn := {}
  /-- The line before and behind each flit that was accepted. -/
  fills : List (CacheLine × CacheLine) := []
  /-- How many flits were not. -/
  refused : ℕ := 0
  /-- How many `CompAck` were sent. -/
  acks : ℕ := 0
  /-- How often the ID was returned. -/
  returned : ℕ := 0

/-- The response: `m_chiattr` has no `DBID` but 0 unless it is set up. -/
structure Response where
  resp : SnpResp
  dataPull : Bool := false
  dbid : BitVec 8 := 0

/-! ### The snoops -/

section Snoops

variable (doNotDataPull : Bool) (l : CacheLine)

def handleSnpUniqueStash : CacheLine × Response :=
  let pull := !doNotDataPull
  match l.getStatus with
  | .ud | .sd => (l.setValid false, { resp := .snpRespData .inv true, dataPull := pull })
  | .udp => (l.setValid false, { resp := .snpRespDataPtl .inv true, dataPull := pull })
  | .uc | .uce | .sc | .inv => (l.setValid false, { resp := .snpResp .inv, dataPull := pull })

def handleSnpMakeInvalidStash : CacheLine × Response := (l.setValid false, { resp := .snpResp .inv, dataPull := !doNotDataPull })

def handleSnpStashUnique : CacheLine × Response :=
  let pull := !doNotDataPull
  match l.getStatus with
  | .uc => (l, { resp := .snpResp .uc })
  | .uce => (l, { resp := .snpResp .uc, dataPull := pull })
  | .ud | .udp => (l, { resp := .snpResp .ud })
  | .sc => (l, { resp := .snpResp .sc, dataPull := pull })
  | .sd => (l, { resp := .snpResp .sd, dataPull := pull })
  | .inv => (l, { resp := .snpResp .inv, dataPull := pull })

def handleSnpStashShared : CacheLine × Response :=
  let pull := !doNotDataPull
  match l.getStatus with
  | .uc => (l, { resp := .snpResp .uc })
  | .uce => (l, { resp := .snpResp .uc, dataPull := pull })
  | .ud | .udp => (l, { resp := .snpResp .ud })
  | .sc => (l, { resp := .snpResp .sc })
  | .sd => (l, { resp := .snpResp .sd })
  | .inv => (l, { resp := .snpResp .inv, dataPull := pull })

end Snoops

namespace State

variable (s : State)

/-- `SetDataPull`. -/
def setDataPull (r : Response) : State := if r.dataPull = true then { s with t := { s.t with gotCompData := false } } else s

/-- `SetupDBID`, and `m_txn` at the ID. It waits for an ID if there is none. -/
def setupDBID (r : Response) : Option (State × Response) :=
  if r.dataPull = true then
    match s.ids with
    | [] => none
    | id :: ids => some ({ s with ids := ids, txn := Function.update s.txn id (some .snp), t := { s.t with ids := some id } }, { r with dbid := id })
  else some (s, r)

/-- The `switch` of `HandleSnp`, over the stash snoops, and what is done for a line that is not in the cache. -/
def handleSnp (op : StashOpcode) (addr : Addr) (nonSecure doNotDataPull : Bool) : Option (State × Response) :=
  if s.line.inCache addr nonSecure = true then
    match op with
    | .snpUniqueStash =>
      let (l, r) := handleSnpUniqueStash doNotDataPull s.line
      (({ s with line := l } : State).setDataPull r).setupDBID r
    | .snpMakeInvalidStash =>
      let (l, r) := handleSnpMakeInvalidStash doNotDataPull s.line
      (({ s with line := l } : State).setDataPull r).setupDBID r
    | .snpStashUnique =>
      let (l, r) := handleSnpStashUnique doNotDataPull s.line
      (({ s with line := l } : State).setDataPull r).setupDBID r
    | .snpStashShared =>
      let (l, r) := handleSnpStashShared doNotDataPull s.line
      some (({ s with line := l } : State).setDataPull r, r)
  else some (s, { resp := .snpResp .inv })

end State

/-! ### The data -/

/-- `CopyData` into the line. -/
def copyData (l : CacheLine) (f : CompData) : CacheLine :=
  let offset := f.dataID * f.dataLength
  { l with
    data := fun k => if offset ≤ k ∧ k < offset + f.dataLength then f.data (k - offset) else l.data k
    byteEnable := fun k => decide (offset ≤ k ∧ k < offset + f.dataLength) || l.byteEnable k }

/-- `ParseReadResp`. -/
def parseReadResp (l : CacheLine) (f : CompData) : CacheLine := ((l.setValid true).setShared f.shared).setDirty f.dirty

inductive Event where
  /-- Another transaction gets an ID, and is put into the table. -/
  | getID
  | returnID (id : BitVec 8)
  /-- The line is written, snooped, or refilled. -/
  | rewrite (l : CacheLine)
  | compData (txnID : BitVec 8) (f : CompData)
  /-- The channel of responses transmits. -/
  | transmit

/-- The flit of an event. -/
def Event.flit : Event → Option (BitVec 8 × CompData)
  | .compData id f => some (id, f)
  | _ => none

namespace State

variable (s : State)

/-- `SnpRespTxn::HandleRxDat`. -/
def handleRxDat (f : CompData) : State :=
  if s.t.gotCompData = true then { s with refused := s.refused + 1 }
  else
    let l := parseReadResp (copyData s.line f) f
    let received := s.t.received + f.dataLength
    { s with
      line := l
      t := { s.t with received := received, gotCompData := decide (received = 64), compAck := decide (received = 64) }
      fills := s.fills ++ [(s.line, l)] }

/-- `b_transport_rxdat`. A snoop "only receives once". What another transaction gets is not followed. -/
def rxDat (txnID : BitVec 8) (f : CompData) : State :=
  match s.txn txnID with
  | some .snp => { s.handleRxDat f with txn := Function.update s.txn txnID none }
  | some .other | none => { s with refused := s.refused + 1 }

/-- The `CompAck` is sent, and the transaction deleted. -/
def transmit : State :=
  if s.t.compAck = true then
    match s.t.ids with
    | some id => { s with t := { s.t with compAck := false }, acks := s.acks + 1, ids := s.ids ++ [id], returned := s.returned + 1 }
    | none => { s with t := { s.t with compAck := false }, acks := s.acks + 1 }
  else s

/-- A step. There is none for a transaction that waits for an ID, or returns one that it does not have. -/
def step : Event → State
  | .getID =>
    match s.ids with
    | [] => s
    | id :: ids => { s with ids := ids, txn := Function.update s.txn id (some .other) }
  | .returnID id => if s.txn id = some .other then { s with txn := Function.update s.txn id none, ids := s.ids ++ [id] } else s
  | .rewrite l => { s with line := l }
  | .compData id f => s.rxDat id f
  | .transmit => s.transmit

def run (es : List Event) : State := es.foldl step s

end State

/-! ### What is to happen -/

/-- No transaction has an ID that is on the list, and none is on it twice. -/
structure Free (s : State) : Prop where
  nodup : s.ids.Nodup
  free : ∀ id ∈ s.ids, s.txn id = none
  others : ∀ id, s.txn id ≠ some .snp
  start : s.t = {} ∧ s.fills = [] ∧ s.refused = 0 ∧ s.acks = 0 ∧ s.returned = 0

/-- A part of the line that is pulled, for a data bus of `w` bytes. -/
def part (data : ℕ → Byte) (shared dirty : Bool) (w i : ℕ) : CompData := ⟨i, w, fun k => data (i * w + k), dirty, shared⟩

/-- **The data is pulled**: the transaction is in the table under an ID that was free, gets all flits and puts them into the
line of the address that was snooped, acknowledges them once, and returns the ID. -/
structure Pulled (s₀ s₁ s₂ : State) (r : Response) (key : Key) (data : ℕ → Byte) : Prop where
  fresh : r.dbid ∈ s₀.ids
  registered : s₁.txn r.dbid = some .snp
  accepted : s₂.refused = 0
  filled : ∃ f ∈ s₂.fills.getLast?, ∀ k < 64, f.2.data k = data k ∧ f.2.byteEnable k = true
  right : ∀ f ∈ s₂.fills, f.2.key = key ∧ f.2.valid = true
  acked : s₂.acks = 1
  returned : s₂.returned = 1

/-! ### Steps -/

section Steps

variable {s s₀ s₁ : State} {id : BitVec 8} {e : Event} {es : List Event} {r : Response} {op : StashOpcode} {addr : Addr} {nonSecure doNotDataPull : Bool}
  {data : ℕ → Byte} {shared dirty : Bool} {w i : ℕ} {f : CacheLine × CacheLine}

/-- The data is waited for. -/
structure Waiting (id : BitVec 8) (s : State) : Prop where
  txn : s.txn id = some .snp
  taken : id ∉ s.ids
  t : s.t = { gotCompData := false, ids := some id }
  fills : s.fills = []
  refused : s.refused = 0
  acks : s.acks = 0
  returned : s.returned = 0

/-- The data came, into a line, and the `CompAck` is to be sent. -/
structure Got (id : BitVec 8) (f : CacheLine × CacheLine) (s : State) : Prop where
  txn : s.txn id = none
  taken : id ∉ s.ids
  t : s.t = { gotCompData := true, received := 64, compAck := true, ids := some id }
  fills : s.fills = [f]
  refused : s.refused = 0
  acks : s.acks = 0
  returned : s.returned = 0

/-- The `CompAck` was sent. -/
structure Acked (f : CacheLine × CacheLine) (s : State) : Prop where
  compAck : s.t.compAck = false
  fills : s.fills = [f]
  refused : s.refused = 0
  acks : s.acks = 1
  returned : s.returned = 1

/-- A part of the data came, and the transaction is not in the table any more. -/
structure Partly (id : BitVec 8) (s : State) : Prop where
  txn : s.txn id = none
  taken : id ∉ s.ids
  compAck : s.t.compAck = false

/-- An ID that a transaction has is not affected by what the others do. -/
theorem txn_step (htaken : id ∉ s.ids) (hother : s.txn id ≠ some .other) (he : e.flit = none) (hack : e = .transmit → s.t.compAck = false) :
    (s.step e).txn id = s.txn id ∧ id ∉ (s.step e).ids := by
  cases e with
  | getID =>
    rw [State.step]
    cases hids : s.ids with
    | nil => exact ⟨rfl, htaken⟩
    | cons j ids =>
      rw [hids, List.mem_cons, not_or] at htaken
      exact ⟨Function.update_of_ne htaken.1 _ _, htaken.2⟩
  | returnID j =>
    rw [State.step]
    split_ifs with hj
    · have hne : id ≠ j := by
        rintro rfl
        exact hother hj
      exact ⟨Function.update_of_ne hne _ _, by simp [htaken, hne]⟩
    · exact ⟨rfl, htaken⟩
  | rewrite l => exact ⟨rfl, htaken⟩
  | compData j g => cases he
  | transmit =>
    rw [State.step, State.transmit, hack rfl]
    exact ⟨rfl, htaken⟩

/-- What the others do leaves the transaction alone. -/
theorem rest_step (he : e.flit = none) (hack : e = .transmit → s.t.compAck = false) : (s.step e).t = s.t ∧ (s.step e).fills = s.fills ∧
    (s.step e).refused = s.refused ∧ (s.step e).acks = s.acks ∧ (s.step e).returned = s.returned := by
  cases e with
  | getID =>
    rw [State.step]
    split <;> exact ⟨rfl, rfl, rfl, rfl, rfl⟩
  | returnID j =>
    rw [State.step]
    split_ifs <;> exact ⟨rfl, rfl, rfl, rfl, rfl⟩
  | rewrite l => exact ⟨rfl, rfl, rfl, rfl, rfl⟩
  | compData j g => cases he
  | transmit =>
    rw [State.step, State.transmit, hack rfl]
    exact ⟨rfl, rfl, rfl, rfl, rfl⟩

theorem Waiting.other (h : Waiting id s) (he : e.flit = none) : Waiting id (s.step e) := by
  have hack : e = .transmit → s.t.compAck = false := fun _ => by rw [h.t]
  obtain ⟨htxn, htaken⟩ := txn_step h.taken (by rw [h.txn]; nofun) he hack
  obtain ⟨ht, hfills, hrefused, hacks, hreturned⟩ := rest_step he hack
  exact ⟨htxn.trans h.txn, htaken, ht.trans h.t, hfills.trans h.fills, hrefused.trans h.refused, hacks.trans h.acks, hreturned.trans h.returned⟩

theorem Partly.other (h : Partly id s) (he : e.flit = none) : Partly id (s.step e) := by
  have hack : e = .transmit → s.t.compAck = false := fun _ => h.compAck
  obtain ⟨htxn, htaken⟩ := txn_step h.taken (by rw [h.txn]; nofun) he hack
  exact ⟨htxn.trans h.txn, htaken, by rw [(rest_step he hack).1, h.compAck]⟩

theorem Acked.other (h : Acked f s) (he : e.flit = none) : Acked f (s.step e) := by
  obtain ⟨ht, hfills, hrefused, hacks, hreturned⟩ := rest_step he fun _ => h.compAck
  exact ⟨by rw [ht, h.compAck], hfills.trans h.fills, hrefused.trans h.refused, hacks.trans h.acks, hreturned.trans h.returned⟩

theorem Got.other (h : Got id f s) (he : e.flit = none) : Got id f (s.step e) ∨ Acked f (s.step e) := by
  by_cases htr : e = .transmit
  · subst htr
    right
    rw [State.step, State.transmit, h.t]
    exact ⟨rfl, h.fills, h.refused, congrArg Nat.succ h.acks, congrArg Nat.succ h.returned⟩
  · have hack : e = .transmit → s.t.compAck = false := fun heq => absurd heq htr
    obtain ⟨htxn, htaken⟩ := txn_step h.taken (by rw [h.txn]; nofun) he hack
    obtain ⟨ht, hfills, hrefused, hacks, hreturned⟩ := rest_step he hack
    exact .inl ⟨htxn.trans h.txn, htaken, ht.trans h.t, hfills.trans h.fills, hrefused.trans h.refused, hacks.trans h.acks,
      hreturned.trans h.returned⟩

/-- A flit that holds the whole line is all. -/
theorem Waiting.got (h : Waiting id s) (g : CompData) (hg : g.dataLength = 64) :
    Got id (s.line, parseReadResp (copyData s.line g) g) (s.step (.compData id g)) := by
  rw [State.step, State.rxDat, h.txn]
  simp only [State.handleRxDat, h.t, hg]
  exact ⟨Function.update_self _ _ _, h.taken, rfl, by simp [h.fills], h.refused, h.acks, h.returned⟩

theorem Waiting.partly (h : Waiting id s) (g : CompData) (hg : g.dataLength < 64) : Partly id (s.step (.compData id g)) := by
  rw [State.step, State.rxDat, h.txn]
  simp only [State.handleRxDat, h.t]
  exact ⟨Function.update_self _ _ _, h.taken, decide_eq_false (by simp only [Nat.zero_add]; omega)⟩

theorem Partly.refused (h : Partly id s) (g : CompData) : 0 < (s.step (.compData id g)).refused := by
  rw [State.step, State.rxDat, h.txn]
  exact Nat.succ_pos _

theorem refused_le_step (s : State) (e : Event) : s.refused ≤ (s.step e).refused := by
  cases e with
  | compData j g =>
    rw [State.step, State.rxDat]
    split
    · rw [State.handleRxDat]
      split_ifs
      · exact Nat.le_succ _
      · exact le_refl _
    · exact Nat.le_succ _
    · exact Nat.le_succ _
  | transmit =>
    rw [State.step, State.transmit]
    split_ifs
    · split <;> exact le_refl _
    · exact le_refl _
  | getID => exact (rest_step (e := .getID) rfl nofun).2.2.1.ge
  | returnID j => exact (rest_step (e := .returnID j) rfl nofun).2.2.1.ge
  | rewrite l => exact le_refl _

/-! ### Runs -/

theorem run_append (s : State) (es : List Event) (e : Event) : s.run (es ++ [e]) = (s.run es).step e := by
  rw [State.run, List.foldl_append]
  rfl

/-- The flits of a run up to its last event. -/
theorem flits_append {α : Type} {g : α → BitVec 8 × CompData} {is : List α} (h : (es ++ [e]).filterMap Event.flit = is.map g) :
    (e.flit = none ∧ es.filterMap Event.flit = is.map g) ∨
      ∃ is' i, is = is' ++ [i] ∧ e = .compData (g i).1 (g i).2 ∧ es.filterMap Event.flit = is'.map g := by
  rw [List.filterMap_append] at h
  cases he : e.flit with
  | none => exact .inl ⟨rfl, by simpa [he] using h⟩
  | some x =>
    have h' : es.filterMap Event.flit ++ [x] = is.map g := by simpa [he] using h
    obtain ⟨is', last, rfl, his', hlast⟩ := List.map_eq_append_iff.1 h'.symm
    obtain ⟨i, rfl, rfl⟩ := List.map_eq_singleton_iff.1 hlast
    refine .inr ⟨is', i, rfl, ?_, his'.symm⟩
    cases e with
    | compData j y =>
      have hx : (j, y) = g i := Option.some.inj he
      rw [← hx]
    | getID => cases he
    | returnID j => cases he
    | rewrite l => cases he
    | transmit => cases he

/-- The flits of a pull, under its ID. -/
def flits (id : BitVec 8) (data : ℕ → Byte) (shared dirty : Bool) (w : ℕ) (is : List ℕ) : List (BitVec 8 × CompData) :=
  is.map fun i => (id, part data shared dirty w i)

theorem waiting_of_run (h : Waiting id s) (hes : es.filterMap Event.flit = flits id data shared dirty w []) : Waiting id (s.run es) := by
  induction es using List.reverseRecOn with
  | nil => exact h
  | append_singleton es e ih =>
    rw [run_append]
    rcases flits_append hes with ⟨he, hes⟩ | ⟨is', i, his, -⟩
    · exact (ih hes).other he
    · exact absurd his.symm (List.append_ne_nil_of_right_ne_nil _ (List.cons_ne_nil _ _))

/-- One flit of the whole line is put into the line as it is found. -/
theorem got_of_run (h : Waiting id s) (hes : es.filterMap Event.flit = flits id data shared dirty 64 [0]) :
    ∃ l, Got id (l, parseReadResp (copyData l (part data shared dirty 64 0)) (part data shared dirty 64 0)) (s.run es) ∨
      Acked (l, parseReadResp (copyData l (part data shared dirty 64 0)) (part data shared dirty 64 0)) (s.run es) := by
  induction es using List.reverseRecOn with
  | nil => cases hes
  | append_singleton es e ih =>
    rw [run_append]
    rcases flits_append hes with ⟨he, hes⟩ | ⟨is', i, his, he, hes⟩
    · obtain ⟨l, hgot | hacked⟩ := ih hes
      · exact ⟨l, hgot.other he⟩
      · exact ⟨l, .inr (hacked.other he)⟩
    · obtain ⟨rfl, hi⟩ : is' = [] ∧ [i] = [0] := by simpa using List.append_eq_singleton_iff.1 his.symm
      obtain rfl : i = 0 := List.head_eq_of_cons_eq hi
      rw [he]
      exact ⟨_, .inl ((waiting_of_run h hes).got _ rfl)⟩

/-- Of a line that comes in parts, all but the first are refused. -/
theorem refused_of_run (h : Waiting id s) (hw : w < 64) {is : List ℕ} (hes : es.filterMap Event.flit = flits id data shared dirty w is) :
    (is = [] → Waiting id (s.run es)) ∧ (is.length = 1 → Partly id (s.run es)) ∧ (2 ≤ is.length → 0 < (s.run es).refused) := by
  induction es using List.reverseRecOn generalizing is with
  | nil =>
    obtain rfl : is = [] := by simpa [flits] using hes.symm
    exact ⟨fun _ => h, nofun, nofun⟩
  | append_singleton es e ih =>
    rw [run_append]
    rcases flits_append hes with ⟨he, hes⟩ | ⟨is', i, rfl, he, hes⟩
    · obtain ⟨hwait, hpart, hrefused⟩ := ih hes
      exact ⟨fun h => (hwait h).other he, fun h => (hpart h).other he, fun h => (hrefused h).trans_le (refused_le_step _ _)⟩
    · obtain ⟨hwait, hpart, hrefused⟩ := ih hes
      rw [he, List.length_append, List.length_singleton]
      refine ⟨fun h => absurd h (List.append_ne_nil_of_right_ne_nil _ (List.cons_ne_nil _ _)), fun h => ?_, fun h => ?_⟩
      · exact (hwait (List.eq_nil_of_length_eq_zero (by omega))).partly _ hw
      · rcases Nat.lt_or_ge is'.length 2 with hlt | hge
        · exact (hpart (by omega)).refused _
        · exact (hrefused hge).trans_le (refused_le_step _ _)

/-! ### The snoop -/

theorem filled_of_part (l : CacheLine) {k : ℕ} (hk : k < 64) :
    (parseReadResp (copyData l (part data shared dirty 64 0)) (part data shared dirty 64 0)).data k = data k ∧
      (parseReadResp (copyData l (part data shared dirty 64 0)) (part data shared dirty 64 0)).byteEnable k = true := by
  simp [parseReadResp, copyData, part, setValid, setShared, setDirty, hk]

theorem waiting_of_setupDBID (hfree : Free s₀) {l : CacheLine} {r₀ : Response}
    (h : (({ s₀ with line := l } : State).setDataPull r₀).setupDBID r₀ = some (s₁, r)) (hpull : r.dataPull = true) :
    r₀.dataPull = true ∧ r.dbid ∈ s₀.ids ∧ Waiting r.dbid s₁ := by
  obtain ⟨ht, hfills, hrefused, hacks, hreturned⟩ := hfree.start
  rw [State.setDataPull, State.setupDBID] at h
  split_ifs at h with hpull₀
  · cases hids : s₀.ids with
    | nil =>
      simp only [hids] at h
      cases h
    | cons j ids =>
      simp only [hids, Option.some.injEq, Prod.mk.injEq] at h
      obtain ⟨rfl, rfl⟩ := h
      refine ⟨hpull₀, List.mem_cons_self, Function.update_self _ _ _, (List.nodup_cons.1 (hids ▸ hfree.nodup)).1, ?_, hfills, hrefused, hacks,
        hreturned⟩
      simp only [ht]
  · obtain ⟨rfl, rfl⟩ := Prod.mk.inj (Option.some.inj h)
    exact absurd hpull hpull₀

/-- None of the snoops is answered with `DataPull` if it asks for none. -/
theorem pull_of_stash {l : CacheLine} (h : (handleSnpUniqueStash doNotDataPull l).2.dataPull = true ∨
    (handleSnpMakeInvalidStash doNotDataPull l).2.dataPull = true ∨ (handleSnpStashUnique doNotDataPull l).2.dataPull = true ∨
    (handleSnpStashShared doNotDataPull l).2.dataPull = true) : doNotDataPull = false := by
  cases doNotDataPull with
  | false => rfl
  | true =>
    rw [handleSnpUniqueStash, handleSnpMakeInvalidStash, handleSnpStashUnique, handleSnpStashShared] at h
    cases hl : l.getStatus <;> simp [hl] at h

/-- Nothing is set up for `DataPull` by `HandleSnpStashShared`. -/
theorem pull_of_handleSnp (hfree : Free s₀) (h : s₀.handleSnp op addr nonSecure doNotDataPull = some (s₁, r)) (hpull : r.dataPull = true) :
    (s₀.line.inCache addr nonSecure = true ∧ doNotDataPull = false) ∧
      (op = .snpStashShared ∧ s₁.txn = s₀.txn ∨ op ≠ .snpStashShared ∧ r.dbid ∈ s₀.ids ∧ Waiting r.dbid s₁) := by
  unfold State.handleSnp at h
  split_ifs at h with hin
  · cases op with
    | snpUniqueStash =>
      obtain ⟨hpull₀, hid, hwait⟩ := waiting_of_setupDBID hfree h hpull
      exact ⟨⟨hin, pull_of_stash (l := s₀.line) (.inl hpull₀)⟩, .inr ⟨nofun, hid, hwait⟩⟩
    | snpMakeInvalidStash =>
      obtain ⟨hpull₀, hid, hwait⟩ := waiting_of_setupDBID hfree h hpull
      exact ⟨⟨hin, pull_of_stash (l := s₀.line) (.inr (.inl hpull₀))⟩, .inr ⟨nofun, hid, hwait⟩⟩
    | snpStashUnique =>
      obtain ⟨hpull₀, hid, hwait⟩ := waiting_of_setupDBID hfree h hpull
      exact ⟨⟨hin, pull_of_stash (l := s₀.line) (.inr (.inr (.inl hpull₀)))⟩, .inr ⟨nofun, hid, hwait⟩⟩
    | snpStashShared =>
      obtain ⟨rfl, rfl⟩ := Prod.mk.inj (Option.some.inj h)
      refine ⟨⟨hin, pull_of_stash (l := s₀.line) (.inr (.inr (.inr hpull)))⟩, .inl ⟨rfl, ?_⟩⟩
      rw [State.setDataPull]
      exact (apply_ite State.txn _ _ _).trans (ite_self _)
  · obtain ⟨rfl, rfl⟩ := Prod.mk.inj (Option.some.inj h)
    cases hpull

/-- **A pull gets to its line exactly if a transaction is set up for it, the data comes in one flit, and finds the line of the
address**: `DataPull` is said for a line that is in the cache, if it is not ruled out, and what follows is a pull for any order of what
others do, unless the snoop is `SnpStashShared`, the line comes in parts, or the line of the set is another one by then. -/
theorem pulled_iff {is : List ℕ} (hfree : Free s₀) (hsnp : s₀.handleSnp op addr nonSecure doNotDataPull = some (s₁, r))
    (hpull : r.dataPull = true) (hw : w ∈ [16, 32, 64]) (his : is.Perm (List.range (64 / w)))
    (hes : es.filterMap Event.flit = flits r.dbid data shared dirty w is) (hdrained : (s₁.run es).t.compAck = false) :
    (s₀.line.inCache addr nonSecure = true ∧ doNotDataPull = false) ∧
      (Pulled s₀ s₁ (s₁.run es) r (keyOf addr nonSecure) data ↔
        op ≠ .snpStashShared ∧ w = 64 ∧ ∀ f ∈ (s₁.run es).fills, f.1.key = keyOf addr nonSecure) := by
  obtain ⟨hin, ⟨rfl, htxn⟩ | ⟨hop, hid, hwait⟩⟩ := pull_of_handleSnp hfree hsnp hpull
  · refine ⟨hin, fun h => ?_, fun h => absurd rfl h.1⟩
    exact absurd (htxn ▸ h.registered) (hfree.others _)
  refine ⟨hin, ?_⟩
  have hlen : is.length = 64 / w := by rw [his.length_eq, List.length_range]
  rcases Nat.lt_or_ge w 64 with hlt | hge
  · have htwo : 2 ≤ is.length := by
      rw [hlen]
      simp only [List.mem_cons, List.not_mem_nil, or_false] at hw
      rcases hw with rfl | rfl | rfl <;> omega
    have hrefused := (refused_of_run hwait hlt hes).2.2 htwo
    exact ⟨fun h => absurd h.accepted hrefused.ne', fun h => absurd h.2.1 hlt.ne⟩
  · obtain rfl : w = 64 := by
      simp only [List.mem_cons, List.not_mem_nil, or_false] at hw
      omega
    obtain rfl : is = [0] := List.perm_singleton.1 his
    obtain ⟨l, hgot | hacked⟩ := got_of_run hwait hes
    · rw [hgot.t] at hdrained
      cases hdrained
    · refine ⟨fun h => ⟨hop, rfl, fun f hf => ?_⟩, fun ⟨_, _, h⟩ => ?_⟩
      · have hright := (h.right f hf).1
        rw [hacked.fills, List.mem_singleton] at hf
        subst hf
        exact hright
      · rw [hacked.fills] at h
        refine ⟨hid, hwait.txn, hacked.refused, ⟨_, by rw [hacked.fills]; rfl, fun k hk => filled_of_part l hk⟩, fun f hf => ?_, hacked.acks,
          hacked.returned⟩
        rw [hacked.fills, List.mem_singleton] at hf
        subst hf
        exact ⟨h _ (List.mem_singleton_self _), rfl⟩

end Steps

/-! ### Two snoops -/

/-- A cache with one line, of address 0, that is unique and empty. -/
def emptyLine : State := { ids := [0, 1], txn := fun _ => none, line := { valid := true, byteEnable := fun _ => false } }

theorem free_emptyLine : Free emptyLine := ⟨by decide, fun _ _ => rfl, nofun, rfl, rfl, rfl, rfl, rfl⟩

/-- A pull by `SnpStashUnique`, while another transaction gets the next ID. -/
theorem pulled_stashUnique : ∃ s₁ r, emptyLine.handleSnp .snpStashUnique 0 false false = some (s₁, r) ∧ r.dataPull = true ∧
    Pulled emptyLine s₁ (s₁.run [.getID, .compData 0 (part (fun k => BitVec.ofNat 8 k) false false 64 0), .transmit]) r (keyOf 0 false)
      (fun k => BitVec.ofNat 8 k) := by
  have hsnp : emptyLine.handleSnp .snpStashUnique 0 false false = some (_, _) := rfl
  refine ⟨_, _, hsnp, rfl, ?_⟩
  have his : [0].Perm (List.range (64 / 64)) := by decide
  have hop : StashOpcode.snpStashUnique ≠ .snpStashShared := nofun
  refine (pulled_iff free_emptyLine hsnp rfl (List.mem_of_getLast? rfl) his rfl rfl).2.2 ⟨hop, rfl, fun f hf => ?_⟩
  obtain rfl := List.mem_singleton.1 hf
  decide

/-- No transaction is set up for the pull of `SnpStashShared`. -/
theorem not_pulled_stashShared : ∃ s₁ r, Free emptyLine ∧ emptyLine.handleSnp .snpStashShared 0 false false = some (s₁, r) ∧ r.dataPull = true ∧
    (s₁.run [.compData r.dbid (part (fun k => BitVec.ofNat 8 k) false false 64 0), .transmit]).refused = 1 ∧
    ∀ es, ¬ Pulled emptyLine s₁ (s₁.run es) r (keyOf 0 false) (fun k => BitVec.ofNat 8 k) := by
  refine ⟨_, _, free_emptyLine, rfl, rfl, rfl, fun es h => ?_⟩
  exact absurd h.registered nofun

end LibSystemCTLM.Chi.StashPull
