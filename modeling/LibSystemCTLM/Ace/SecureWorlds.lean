import LibSystemCTLM.Ace.Segments

/-!
# The secure and the non-secure world

What `iconnect_ace` (`iconnect-ace.h`) does downstream on behalf of its transactions, and under which security state: a transaction
itself goes downstream with its own attributes, the `m_ds_gp` of a `ReadOnce` has a copy of them, and the `m_ds_gp` that writes dirty data
back has attributes of its own, which are secure (`init_ds_gp`). So it is the write-backs of non-secure transactions that end up in the
secure world (`separated_iff`). What is stored in the secure world has no effect on the non-secure one all the same (`nonSecure_of_run`).

## The model

A downstream memory for each security state, the caches of the masters, and the transactions in the snoop engine (`Segments.Engine`). The caches
answer snoops as `cache-ace.h` has it; what their masters do with them is up to the actions, and so are the downstream responses. Every
access downstream is recorded. `erase` forgets the data of the secure world, and nothing else.
-/

namespace LibSystemCTLM.Ace.Secure

open Foundation SnoopTransaction Segments

/-- The attributes of `m_ds_gp` (`init_ds_gp`). -/
def dsGenattr (tr : Transaction) : Genattr := if tr.isReadOnce then tr.genattr else {}

/-- A downstream access: its `get_secure()`, and that of the transaction it is made for. -/
structure Access where
  secure : Bool
  requested : Bool
  deriving DecidableEq

/-- The interconnect with its masters' caches and the memory downstream. -/
structure Worlds (N : ℕ) where
  /-- The transactions. -/
  engine : ℕ → Option (Engine N)
  caches : Fin N → Cache
  /-- The memory, by `get_secure()`. -/
  mem : Bool → Addr → Byte
  /-- How often a transaction was carried out downstream. -/
  carriedOut : ℕ → ℕ := fun _ => 0
  /-- The accesses, the latest first. -/
  accesses : List Access := []

/-- What happens next. -/
inductive Act (N : ℕ) where
  /-- A transaction passes the overlapping orderer. -/
  | arrive (id : ℕ) (tr : Transaction)
  /-- A turn of the loop in `snoop_engine_thread`. -/
  | generate (id : ℕ)
  /-- A cache answers the snoop transaction `k`. -/
  | answer (id k : ℕ) (port : Fin N)
  /-- Some other master does, in its own way. -/
  | reply (id k : ℕ) (port : Fin N) (gp : SnoopGp)
  /-- `snoop_done_thread` takes the snoop transaction. -/
  | snoopDone (id k : ℕ)
  /-- Its `m_ds_gp` is carried out downstream. -/
  | dsGp (id k : ℕ) (response : Response)
  /-- `finalize_snoop_tr`. -/
  | finalize (id k : ℕ)
  /-- The transaction is carried out downstream. -/
  | downstream (id : ℕ) (response : Response)
  /-- A master uses its cache. -/
  | cache (port : Fin N) (c : Cache)

namespace Worlds

variable {N : ℕ} (ls : LineSize) (forwardDVM : Fin N → Bool) (s : Worlds N)

/-- A transaction goes on. -/
def setEngine (id : ℕ) (e : Engine N) : Worlds N := { s with engine := Function.update s.engine id (some e) }

/-- A step of the snoop engine. -/
def engineStep (id : ℕ) (a : Segments.Action N) : Option (Worlds N) :=
  (s.engine id).bind fun e => (e.step ls forwardDVM a).map fun e' => s.setEngine id e'

/-- The memory of a security state is written. -/
def setMem (secure : Bool) (m : Addr → Byte) : Worlds N := { s with mem := Function.update s.mem secure m }

/-- A transaction that was just accepted: one that does not snoop goes downstream at once. -/
def accepted (tr : Transaction) : Engine N :=
  if tr.isSnoopingTransaction then Engine.start ls tr else { tr, looping := false, forwarded := 1 }

/-- One step. -/
def step : Act N → Option (Worlds N)
  | .arrive id tr => if (s.engine id).isNone then some (s.setEngine id (accepted ls tr)) else none
  | .generate id => s.engineStep ls forwardDVM id .generate
  | .answer id k port =>
    (s.engine id).bind fun e => e.snoops[k]?.bind fun g =>
      let ans := snoopAnswer ls g.st.snoop g.st.addr g.st.secure (s.caches port)
      (e.step ls forwardDVM (.answer k port ans.2)).map fun e' => { s.setEngine id e' with caches := Function.update s.caches port ans.1 }
  | .reply id k port gp =>
    (s.engine id).bind fun e =>
      if gp.genattr.secure = e.tr.genattr.secure then (e.step ls forwardDVM (.answer k port gp)).map fun e' => s.setEngine id e' else none
  | .snoopDone id k => s.engineStep ls forwardDVM id (.snoopDone k)
  | .dsGp id k response =>
    (s.engine id).bind fun e => e.snoops[k]?.bind fun g =>
      let secure := (dsGenattr e.tr).secure
      let data := if response = .ok then readFrom (s.mem secure) g.st.addr else g.st.dsData
      (e.step ls forwardDVM (.dsGp k data response)).map fun e' =>
        let s₁ := { s.setEngine id e' with accesses := ⟨secure, e.tr.genattr.secure⟩ :: s.accesses }
        if response = .ok ∧ g.st.dsRead = false then s₁.setMem secure (writeAt (s.mem secure) g.st.addr ls.size g.st.dsData) else s₁
  | .finalize id k => s.engineStep ls forwardDVM id (.finalize k)
  | .downstream id response =>
    (s.engine id).bind fun e =>
      if s.carriedOut id < e.forwarded then
        let secure := e.tr.genattr.secure
        let d := if response = .ok then Ace.downstream (s.mem secure) e.tr else (s.mem secure, { e.tr with response := response })
        some { (s.setEngine id { e with tr := d.2 }).setMem secure d.1 with
          carriedOut := Function.update s.carriedOut id (s.carriedOut id + 1)
          accesses := ⟨secure, secure⟩ :: s.accesses }
      else none
  | .cache port c => some { s with caches := Function.update s.caches port c }

end Worlds

/-! ### What the non-secure world sees -/

/-- Data of the secure world is forgotten. -/
def eraseData (secure : Bool) (data : ℕ → Byte) : ℕ → Byte := if secure then fun _ => 0 else data

/-- A line of a cache. -/
def eraseLine (l : CacheLine) : CacheLine := { l with data := eraseData l.secure l.data }

/-- A cache without the data of its secure lines. -/
def eraseCache (c : Cache) : Cache := { c with lines := fun x => eraseLine (c.lines x) }

/-- The memory of the secure world is forgotten. -/
def eraseMem (mem : Bool → Addr → Byte) : Bool → Addr → Byte := fun secure a => if secure then 0 else mem secure a

/-- A transaction without its data. -/
def eraseTr (secure : Bool) (tr : Transaction) : Transaction := { tr with data := eraseData secure tr.data }

/-- An answer of a cache. -/
def eraseGp (secure : Bool) (gp : SnoopGp) : SnoopGp := { gp with data := eraseData secure gp.data }

/-- A snoop transaction without its data. -/
def eraseSt (secure : Bool) (st : SnoopTransaction) : SnoopTransaction := { st with dsData := eraseData secure st.dsData }

section Erase

variable {N : ℕ}

/-- What has become of it. -/
def eraseSnoop (secure : Bool) (g : LineSnoop N) : LineSnoop N :=
  { g with
    st := eraseSt secure g.st
    answers := g.answers.map (eraseGp secure)
    fetched := g.fetched.map (eraseData secure) }

/-- A transaction in the snoop engine. -/
def eraseWith (secure : Bool) (e : Engine N) : Engine N :=
  { e with tr := eraseTr secure e.tr, snoops := e.snoops.map (eraseSnoop secure) }

/-- One that is secure has its data forgotten. -/
def eraseEngine (e : Engine N) : Engine N := eraseWith e.tr.genattr.secure e

/-- The whole system. -/
def erase (s : Worlds N) : Worlds N :=
  { s with
    engine := fun id => (s.engine id).map eraseEngine
    caches := fun i => eraseCache (s.caches i)
    mem := eraseMem s.mem }

/-- What a master does. -/
def eraseAct : Act N → Act N
  | .arrive id tr => .arrive id (eraseTr tr.genattr.secure tr)
  | .reply id k port gp => .reply id k port (eraseGp gp.genattr.secure gp)
  | .cache port c => .cache port (eraseCache c)
  | a => a

/-- The secure and the non-secure world are separated in a run of the actions `as` from `s₀` to `s`. -/
structure Separated (ls : LineSize) (forwardDVM : Fin N → Bool) (s₀ : Worlds N) (as : List (Act N)) (s : Worlds N) : Prop where
  /-- Every downstream access has the security state of its transaction. -/
  sameState : ∀ x ∈ s.accesses, x.secure = x.requested
  /-- Whatever else the data of the secure world is, the non-secure one gets the same data and responses. -/
  nonSecure : ∀ s₀' as', (∀ id, s₀'.engine id = none) → erase s₀' = erase s₀ → as'.map eraseAct = as.map eraseAct →
    ∃ s', run (fun s a => s.step ls forwardDVM a) s₀' as' = some s' ∧ erase s' = erase s

/-- No dirty data is written back for a non-secure transaction. -/
def StepOk (s : Worlds N) : Act N → Prop
  | .dsGp id _ _ => ∀ e ∈ s.engine id, e.tr.isReadOnce = true ∨ e.tr.genattr.secure = true
  | _ => True

instance : ∀ (s : Worlds N) (a : Act N), Decidable (StepOk s a)
  | s, .dsGp id _ _ => inferInstanceAs (Decidable (∀ e ∈ s.engine id, e.tr.isReadOnce = true ∨ e.tr.genattr.secure = true))
  | _, .arrive .. | _, .generate _ | _, .answer .. | _, .reply .. | _, .snoopDone .. | _, .finalize .. | _, .downstream .. | _, .cache .. => isTrue trivial

end Erase

/-! ### The engine does not look at data -/

section Blind

variable {N : ℕ} {ls : LineSize} {forwardDVM : Fin N → Bool} {secure : Bool}

theorem eraseData_eraseData (d : ℕ → Byte) : eraseData secure (eraseData secure d) = eraseData secure d := by
  cases secure <;> rfl

theorem copyData_erase (a b : Addr) (src dst : ℕ → Byte) (n m : ℕ) :
    copyData a (eraseData secure src) n b (eraseData secure dst) m = eraseData secure (copyData a src n b dst m) := by
  cases secure with
  | false => rfl
  | true =>
    funext i
    simp [copyData, eraseData]

theorem portDone_erase (ls : LineSize) (secure : Bool) (t : Transaction) (st : SnoopTransaction) (gp : SnoopGp) :
    portDone ls (eraseTr secure t) (eraseSt secure st) (eraseGp secure gp) =
      (eraseTr secure (portDone ls t st gp).1, eraseSt secure (portDone ls t st gp).2) := by
  have hdata : ∀ (c : Bool) (a b : ℕ → Byte), (if c = true then eraseData secure a else eraseData secure b) = eraseData secure (if c = true then a else b) :=
    fun c _ _ => (apply_ite (eraseData secure) (c = true) _ _).symm
  simp only [portDone, eraseTr, eraseSt, eraseGp, copyData_erase, hdata]
  rfl

/-- What it is told. -/
def eraseAction (secure : Bool) : Segments.Action N → Segments.Action N
  | .answer k port gp => .answer k port (eraseGp secure gp)
  | .dsGp k data response => .dsGp k (eraseData secure data) response
  | a => a

theorem finalizeTr_erase (e : Engine N) (t : Transaction) :
    (eraseWith secure e).finalizeTr (eraseTr secure t) = eraseWith secure (e.finalizeTr t) := by
  unfold Engine.finalizeTr
  rw [apply_ite (eraseWith secure)]
  rfl

theorem finalizeSnoopTr_erase (e : Engine N) (t : Transaction) (st : SnoopTransaction) :
    (eraseWith secure e).finalizeSnoopTr (eraseTr secure t) (eraseSt secure st) = eraseWith secure (e.finalizeSnoopTr t st) := by
  have hall : Engine.allReceived (Engine.segmentDone (eraseTr secure t) (eraseSt secure st)) =
      eraseTr secure (Engine.allReceived (Engine.segmentDone t st)) := by
    unfold Engine.allReceived
    rw [apply_ite (eraseTr secure)]
    rfl
  unfold Engine.finalizeSnoopTr
  rw [apply_ite (eraseWith secure), apply_ite (eraseWith secure), ← finalizeTr_erase, ← finalizeTr_erase, ← hall]
  rfl

/-- **The engine does with erased data what it does with the data.** -/
theorem step_eraseWith (e : Engine N) (a : Segments.Action N) :
    (eraseWith secure e).step ls forwardDVM (eraseAction secure a) = (e.step ls forwardDVM a).map (eraseWith secure) := by
  have hget : ∀ k, (eraseWith secure e).snoops[k]? = e.snoops[k]?.map (eraseSnoop secure) := fun k => List.getElem?_map ..
  have hset : ∀ (k : ℕ) (g : LineSnoop N), (e.snoops.map (eraseSnoop secure)).set k (eraseSnoop secure g) = (e.snoops.set k g).map (eraseSnoop secure) :=
    fun k g => List.map_set.symm
  have hsome : ∀ {c : Prop} [Decidable c] {x y : Engine N}, x = eraseWith secure y →
      (if c then some x else none) = Option.map (eraseWith secure) (if c then some y else none) := fun {c} _ x y h => by
    rw [apply_ite (Option.map (eraseWith secure)), h]
    rfl
  cases a with
  | generate =>
    refine hsome ?_
    rw [apply_ite (eraseWith secure)]
    refine if_congr (by rw [show (eraseWith secure e).snoops.length = e.snoops.length from List.length_map ..]; rfl) ?_ rfl
    have hnew : newSnoop ls forwardDVM (eraseTr secure e.tr) e.snoops.length = eraseSnoop secure (newSnoop ls forwardDVM e.tr e.snoops.length) := by
      cases secure <;> rfl
    show ({ eraseWith secure e with
      snoops := e.snoops.map (eraseSnoop secure) ++ [newSnoop ls forwardDVM (eraseTr secure e.tr) (e.snoops.map (eraseSnoop secure)).length] } : Engine N) = _
    rw [List.length_map, hnew]
    simp only [eraseWith, List.map_append, List.map_cons, List.map_nil]
  | answer k port gp =>
    simp only [Engine.step, eraseAction, hget]
    cases e.snoops[k]? with
    | none => rfl
    | some g =>
      refine hsome ?_
      have hport := portDone_erase ls secure e.tr g.st gp
      show ({ eraseWith secure e with
        tr := (portDone ls (eraseTr secure e.tr) (eraseSt secure g.st) (eraseGp secure gp)).1
        snoops := (e.snoops.map (eraseSnoop secure)).set k { eraseSnoop secure g with
          st := (portDone ls (eraseTr secure e.tr) (eraseSt secure g.st) (eraseGp secure gp)).2
          ports := g.ports.erase port
          stage := if (portDone ls (eraseTr secure e.tr) (eraseSt secure g.st) (eraseGp secure gp)).2.snoopDone then .snooped else .snooping
          answers := eraseGp secure gp :: (eraseSnoop secure g).answers } } : Engine N) = _
      rw [hport]
      simp only [eraseWith, ← hset]
      rfl
  | snoopDone k =>
    simp only [Engine.step, eraseAction, hget]
    cases e.snoops[k]? with
    | none => rfl
    | some g =>
      refine hsome ?_
      simp only [eraseWith, ← hset]
      rfl
  | dsGp k data response =>
    simp only [Engine.step, eraseAction, hget]
    cases e.snoops[k]? with
    | none => rfl
    | some g =>
      refine hsome ?_
      simp only [eraseWith, ← hset, eraseSnoop, eraseSt, apply_ite (eraseData secure), apply_ite (Option.map (eraseData secure)), Option.map_some,
        Option.map_none]
      rfl
  | finalize k =>
    simp only [Engine.step, eraseAction, hget]
    cases e.snoops[k]? with
    | none => rfl
    | some g =>
      refine hsome ?_
      have hdone : (eraseWith secure e).dsGpDone ls (eraseSt secure g.st) = eraseTr secure (e.dsGpDone ls g.st) := by
        unfold Engine.dsGpDone
        rw [apply_ite (eraseTr secure)]
        refine if_congr Iff.rfl ?_ rfl
        simp only [eraseWith, eraseTr, eraseSt, copyData_erase]
      rw [← finalizeSnoopTr_erase, ← hdone]
      simp only [eraseWith, ← hset]
      rfl

end Blind

/-! ### The security state of a transaction stays -/

section State

variable {N : ℕ} {ls : LineSize} {forwardDVM : Fin N → Bool} {e e' : Engine N} {a : Segments.Action N}

theorem dsGpDone_ident (e : Engine N) (st : SnoopTransaction) : (e.dsGpDone ls st).ident = e.tr.ident := by
  unfold Engine.dsGpDone
  split <;> rfl

/-- The snoop transactions have the security state of the transaction, and are of its kind. -/
def SnoopsSame (e : Engine N) : Prop := ∀ g ∈ e.snoops, g.st.secure = e.tr.genattr.secure ∧ g.st.dsRead = e.tr.isReadOnce

/-- What a step of the engine leaves of the transaction and of its snoop transactions. -/
theorem step_same (h : e.step ls forwardDVM a = some e') : e'.tr.ident = e.tr.ident ∧
    ∀ g' ∈ e'.snoops, (g'.st.secure = e.tr.genattr.secure ∧ g'.st.dsRead = e.tr.isReadOnce) ∨
      ∃ g ∈ e.snoops, g'.st.secure = g.st.secure ∧ g'.st.dsRead = g.st.dsRead := by
  have hset : ∀ {k : ℕ} {g g₁ : LineSnoop N}, e.snoops[k]? = some g → g₁.st.secure = g.st.secure → g₁.st.dsRead = g.st.dsRead →
      ∀ g' ∈ e.snoops.set k g₁, (g'.st.secure = e.tr.genattr.secure ∧ g'.st.dsRead = e.tr.isReadOnce) ∨
        ∃ g ∈ e.snoops, g'.st.secure = g.st.secure ∧ g'.st.dsRead = g.st.dsRead := by
    intro k g g₁ hk hsec hread g' hg'
    rcases List.mem_or_eq_of_mem_set hg' with hg' | rfl
    · exact .inr ⟨g', hg', rfl, rfl⟩
    · exact .inr ⟨g, List.mem_of_getElem? hk, hsec, hread⟩
  cases a with
  | generate =>
    simp only [Engine.step] at h
    split at h
    · rw [← Option.some.inj h]
      split
      · refine ⟨rfl, fun g' hg' => ?_⟩
        rcases List.mem_append.1 hg' with hg' | hg'
        · exact .inr ⟨g', hg', rfl, rfl⟩
        · obtain rfl := List.mem_singleton.1 hg'
          exact .inl ⟨rfl, rfl⟩
      · exact ⟨rfl, fun g' hg' => .inr ⟨g', hg', rfl, rfl⟩⟩
    · cases h
  | answer k port gp =>
    obtain ⟨g, hk, h⟩ := Option.bind_eq_some_iff.1 h
    split at h
    · rw [← Option.some.inj h]
      exact ⟨Transaction.ident_congr portDone_request, hset hk rfl rfl⟩
    · cases h
  | snoopDone k =>
    obtain ⟨g, hk, h⟩ := Option.bind_eq_some_iff.1 h
    split at h
    · rw [← Option.some.inj h]
      exact ⟨rfl, hset hk rfl rfl⟩
    · cases h
  | dsGp k data response =>
    obtain ⟨g, hk, h⟩ := Option.bind_eq_some_iff.1 h
    split at h
    · rw [← Option.some.inj h]
      exact ⟨rfl, hset hk rfl rfl⟩
    · cases h
  | finalize k =>
    obtain ⟨g, hk, h⟩ := Option.bind_eq_some_iff.1 h
    split at h
    · rw [← Option.some.inj h]
      obtain ⟨hident, -, hsnoops, -⟩ :=
        finalizeSnoopTr_spec { e with snoops := e.snoops.set k { g with deleted := true } } (e.dsGpDone ls g.st) g.st
      refine ⟨hident.trans (dsGpDone_ident e g.st), ?_⟩
      rw [hsnoops]
      exact hset hk rfl rfl
    · cases h

theorem step_secure (h : e.step ls forwardDVM a = some e') : e'.tr.genattr.secure = e.tr.genattr.secure :=
  (congrArg (fun t => t.genattr.secure) (step_same h).1 :)

theorem SnoopsSame.step (hs : SnoopsSame e) (h : e.step ls forwardDVM a = some e') : SnoopsSame e' := by
  intro g' hg'
  rw [step_secure h, Transaction.isReadOnce_ident (step_same h).1]
  rcases (step_same h).2 g' hg' with heq | ⟨g, hg, hsec, hread⟩
  · exact heq
  · exact ⟨hsec.trans (hs g hg).1, hread.trans (hs g hg).2⟩

/-- A downstream access that writes returns nothing. -/
theorem step_dsGp_write {k : ℕ} {g : LineSnoop N} (hk : e.snoops[k]? = some g) (hw : g.st.dsRead = false) (data data' : ℕ → Byte)
    (response : Response) : e.step ls forwardDVM (.dsGp k data response) = e.step ls forwardDVM (.dsGp k data' response) := by
  simp [Engine.step, hk, hw]

theorem step_eraseEngine (ls : LineSize) (forwardDVM : Fin N → Bool) (e : Engine N) (a : Segments.Action N) :
    (eraseEngine e).step ls forwardDVM (eraseAction e.tr.genattr.secure a) = (e.step ls forwardDVM a).map eraseEngine := by
  rw [eraseEngine, step_eraseWith]
  cases h : e.step ls forwardDVM a with
  | none => rfl
  | some e' =>
    rw [Option.map_some, Option.map_some, ← step_secure h]
    rfl

end State

/-! ### Caches and memory do not mix the worlds -/

section Parts

variable {N : ℕ} {ls : LineSize}

/-- A handler that does not look at data. -/
structure Blind (r : Cache.SnoopRule) : Prop where
  line : ∀ l d, r.line { l with data := d } = { r.line l with data := d }
  secure : ∀ l, (r.line l).secure = l.secure
  data : ∀ l, (r.line l).data = l.data
  attr : ∀ l d g, r.attr { l with data := d } g = r.attr l g
  transfers : ∀ l d, r.transfers { l with data := d } = r.transfers l

theorem getLine_erase (c : Cache) (addr : Addr) : (eraseCache c).getLine ls addr = eraseLine (c.getLine ls addr) := rfl

theorem setLine_erase (c : Cache) (addr : Addr) (l : CacheLine) : (eraseCache c).setLine ls addr (eraseLine l) = eraseCache (c.setLine ls addr l) := by
  have hlines : ((eraseCache c).setLine ls addr (eraseLine l)).lines = (eraseCache (c.setLine ls addr l)).lines := by
    funext x
    show _ = eraseLine ((c.setLine ls addr l).lines x)
    rw [Cache.lines_setLine, Cache.lines_setLine, apply_ite eraseLine]
    rfl
  rw [Cache.mk.injEq]
  exact ⟨rfl, hlines, rfl, rfl⟩

theorem Blind.handleSnoop {r : Cache.SnoopRule} (h : Blind r) (c : Cache) (addr : Addr) {gp : SnoopGp} (hgp : gp.data = fun _ => 0) :
    (eraseCache c).handleSnoop ls r addr gp = (eraseCache (c.handleSnoop ls r addr gp).1, eraseGp gp.genattr.secure (c.handleSnoop ls r addr gp).2) := by
  have hzero : eraseData gp.genattr.secure gp.data = gp.data := by
    rw [hgp]
    cases gp.genattr.secure <;> rfl
  have hin : (eraseCache c).inCache ls addr gp.genattr.secure = c.inCache ls addr gp.genattr.secure := rfl
  unfold Cache.handleSnoop
  rw [hin]
  by_cases hhit : c.inCache ls addr gp.genattr.secure = true
  · have hsec : (c.getLine ls addr).secure = gp.genattr.secure := ((Cache.inCache_eq_true ls c).1 hhit).2.2
    have hline : r.line (eraseLine (c.getLine ls addr)) = eraseLine (r.line (c.getLine ls addr)) :=
      (h.line _ _).trans (by simp only [eraseLine, h.secure, h.data])
    have hattr : ∀ g, r.attr (eraseLine (c.getLine ls addr)) g = r.attr (c.getLine ls addr) g := fun g => h.attr _ _ g
    have htrans : r.transfers (eraseLine (c.getLine ls addr)) = r.transfers (c.getLine ls addr) := h.transfers _ _
    have hdata : (eraseLine (c.getLine ls addr)).data = eraseData gp.genattr.secure (c.getLine ls addr).data := by rw [eraseLine, hsec]
    rw [if_pos hhit, if_pos hhit]
    dsimp only
    rw [getLine_erase, hline, hattr, htrans, hdata, setLine_erase]
    refine Prod.ext ?_ ?_
    · cases r.resets <;> rfl
    · rw [SnoopGp.mk.injEq]
      refine ⟨?_, rfl, rfl⟩
      rw [hgp]
      cases gp.genattr.secure with
      | false => rfl
      | true =>
        funext i
        exact ite_self _
  · rw [if_neg hhit, if_neg hhit, eraseGp, hzero]

/-- **A cache answers from lines of the security state it is asked for.** -/
theorem snoopAnswer_erase (ac : AC) (addr : Addr) (secure : Bool) (c : Cache) :
    snoopAnswer ls ac addr secure (eraseCache c) =
      (eraseCache (snoopAnswer ls ac addr secure c).1, eraseGp secure (snoopAnswer ls ac addr secure c).2) := by
  have hrule : ∀ {r : Cache.SnoopRule}, Blind r →
      (eraseCache c).handleSnoop ls r addr { data := fun _ => 0, genattr := { secure } } =
        (eraseCache (c.handleSnoop ls r addr { data := fun _ => 0, genattr := { secure } }).1,
          eraseGp secure (c.handleSnoop ls r addr { data := fun _ => 0, genattr := { secure } }).2) := fun h => h.handleSnoop c addr rfl
  cases ac with
  | dvmMessage | dvmComplete => cases secure <;> rfl
  | _ => exact hrule ⟨fun _ _ => rfl, fun _ => rfl, fun _ => rfl, fun _ _ _ => rfl, fun _ _ => rfl⟩

theorem eraseMem_update (mem : Bool → Addr → Byte) (secure : Bool) (m : Addr → Byte) :
    eraseMem (Function.update (eraseMem mem) secure m) = eraseMem (Function.update mem secure m) := by
  funext b a
  cases b with
  | true => rfl
  | false => cases secure <;> simp [eraseMem, Function.update]

theorem readFrom_erase (mem : Bool → Addr → Byte) (secure : Bool) (a : Addr) :
    readFrom (eraseMem mem secure) a = eraseData secure (readFrom (mem secure) a) := by
  cases secure <;> rfl

end Parts

/-! ### The non-secure world -/

section NonSecure

variable {N : ℕ} {ls : LineSize} {forwardDVM : Fin N → Bool} {s s' : Worlds N}

theorem eraseGp_eraseGp (secure : Bool) (gp : SnoopGp) : eraseGp secure (eraseGp secure gp) = eraseGp secure gp := by
  simp only [eraseGp, eraseData_eraseData]

theorem eraseSnoop_eraseSnoop (secure : Bool) (g : LineSnoop N) : eraseSnoop secure (eraseSnoop secure g) = eraseSnoop secure g := by
  have hgp : eraseGp secure ∘ eraseGp secure = eraseGp secure := funext (eraseGp_eraseGp secure)
  have hdata : eraseData secure ∘ eraseData secure = eraseData secure := funext fun _ => eraseData_eraseData _
  simp only [eraseSnoop, eraseSt, List.map_map, Option.map_map, hgp, hdata, eraseData_eraseData]

theorem eraseEngine_eraseEngine (e : Engine N) : eraseEngine (eraseEngine e) = eraseEngine e := by
  have hsnoop : eraseSnoop e.tr.genattr.secure ∘ eraseSnoop e.tr.genattr.secure = eraseSnoop (N := N) e.tr.genattr.secure :=
    funext (eraseSnoop_eraseSnoop _)
  simp only [eraseEngine, eraseWith, eraseTr, List.map_map, hsnoop, eraseData_eraseData]

theorem eraseCache_eraseCache (c : Cache) : eraseCache (eraseCache c) = eraseCache c := by
  have hline : ∀ l, eraseLine (eraseLine l) = eraseLine l := fun l => by rw [eraseLine, eraseLine, eraseData_eraseData]
  rw [Cache.mk.injEq]
  exact ⟨rfl, funext fun x => hline (c.lines x), rfl, rfl⟩

/-- What the non-secure world sees of a system. -/
theorem erase_eq_iff : erase s' = erase s ↔ (∀ id, (s'.engine id).map eraseEngine = (s.engine id).map eraseEngine) ∧
    (∀ i, eraseCache (s'.caches i) = eraseCache (s.caches i)) ∧ eraseMem s'.mem = eraseMem s.mem ∧ s'.carriedOut = s.carriedOut ∧
      s'.accesses = s.accesses := by
  rw [Worlds.mk.injEq, funext_iff, funext_iff]
  rfl

theorem erase_engine_update (f : ℕ → Option (Engine N)) (id : ℕ) {e e' : Engine N} (he : eraseEngine e' = eraseEngine e) (i : ℕ) :
    (Function.update (fun i => (f i).map eraseEngine) id (some e') i).map eraseEngine = (Function.update f id (some e) i).map eraseEngine := by
  have hidem : eraseEngine ∘ eraseEngine = eraseEngine (N := N) := funext eraseEngine_eraseEngine
  rw [Function.update_apply, Function.update_apply]
  split
  · exact congrArg some he
  · rw [Option.map_map, hidem]

/-- A transaction that was answered downstream. -/
theorem eraseEngine_setTr (e : Engine N) {t t' : Transaction} (ht : eraseTr e.tr.genattr.secure t' = eraseTr e.tr.genattr.secure t)
    (hsec : t.genattr.secure = e.tr.genattr.secure) : eraseEngine { eraseEngine e with tr := t' } = eraseEngine { e with tr := t } := by
  have hsec' : t'.genattr.secure = e.tr.genattr.secure := (congrArg (fun t => t.genattr.secure) ht :).trans hsec
  have hsnoop : eraseSnoop e.tr.genattr.secure ∘ eraseSnoop e.tr.genattr.secure = eraseSnoop (N := N) e.tr.genattr.secure :=
    funext (eraseSnoop_eraseSnoop _)
  simp only [eraseEngine, eraseWith, ht, hsec, hsec', List.map_map, hsnoop]

theorem erase_cache_update (f : Fin N → Cache) (port : Fin N) (c : Cache) (i : Fin N) :
    eraseCache (Function.update (fun i => eraseCache (f i)) port (eraseCache c) i) = eraseCache (Function.update f port c i) := by
  rw [Function.update_apply, Function.update_apply]
  split
  · exact eraseCache_eraseCache _
  · exact eraseCache_eraseCache _

theorem eraseMem_eraseMem (mem : Bool → Addr → Byte) : eraseMem (eraseMem mem) = eraseMem mem := by
  funext b a
  cases b <;> rfl

theorem erase_setEngine (s : Worlds N) (id : ℕ) (e : Engine N) : erase ((erase s).setEngine id (eraseEngine e)) = erase (s.setEngine id e) :=
  erase_eq_iff.2 ⟨erase_engine_update s.engine id (eraseEngine_eraseEngine e), fun _ => eraseCache_eraseCache _, eraseMem_eraseMem _, rfl, rfl⟩

theorem engineStep_erase (s : Worlds N) (id : ℕ) {a : Segments.Action N} (ha : ∀ secure, eraseAction secure a = a) :
    ((erase s).engineStep ls forwardDVM id a).map erase = (s.engineStep ls forwardDVM id a).map erase := by
  have hget : (erase s).engine id = (s.engine id).map eraseEngine := rfl
  rw [Worlds.engineStep, Worlds.engineStep, hget]
  cases s.engine id with
  | none => rfl
  | some e =>
    have hstep := step_eraseEngine ls forwardDVM e a
    rw [ha] at hstep
    rw [Option.map_some, Option.bind_some, Option.bind_some, hstep]
    cases e.step ls forwardDVM a with
    | none => rfl
    | some e' => exact congrArg some (erase_setEngine s id e')

/-- Memory of one security state is written alike. -/
theorem eraseMem_write (m : Bool → Addr → Byte) (secure : Bool) {x y : Addr → Byte} (h : secure = false → x = y) :
    eraseMem (Function.update (eraseMem m) secure x) = eraseMem (Function.update m secure y) := by
  rw [eraseMem_update]
  cases secure with
  | false => rw [h rfl]
  | true =>
    funext b a
    cases b <;> simp [eraseMem, Function.update]

/-- The access of a transaction to the memory of its security state. -/
theorem downstream_erase (m : Bool → Addr → Byte) (secure : Bool) (tr : Transaction) :
    eraseTr secure (Ace.downstream (eraseMem m secure) (eraseTr secure tr)).2 = eraseTr secure (Ace.downstream (m secure) tr).2 ∧
      (secure = false → (Ace.downstream (eraseMem m secure) (eraseTr secure tr)).1 = (Ace.downstream (m secure) tr).1) := by
  cases secure with
  | false => exact ⟨rfl, fun _ => rfl⟩
  | true =>
    refine ⟨?_, fun hf => (by cases hf)⟩
    unfold Ace.downstream
    rw [show (eraseTr true tr).cmd = tr.cmd from rfl]
    cases tr.cmd <;> rfl

/-- **The system does for the non-secure world what it does without the data of the secure one.** -/
theorem step_erase (s : Worlds N) (hs : ∀ id, ∀ e ∈ s.engine id, SnoopsSame e) (a : Act N) :
    ((erase s).step ls forwardDVM (eraseAct a)).map erase = (s.step ls forwardDVM a).map erase := by
  have hget : ∀ id, (erase s).engine id = (s.engine id).map eraseEngine := fun _ => rfl
  cases a with
  | arrive id tr =>
    simp only [Worlds.step, eraseAct, hget]
    cases hid : s.engine id with
    | some e => rfl
    | none =>
      rw [Option.map_none, Option.isNone_none, if_pos rfl, if_pos rfl]
      have hacc : Worlds.accepted (N := N) ls (eraseTr tr.genattr.secure tr) = eraseEngine (Worlds.accepted ls tr) := by
        unfold Worlds.accepted
        rw [apply_ite eraseEngine]
        rfl
      rw [hacc]
      exact congrArg some (erase_setEngine s id _)
  | generate id => exact engineStep_erase s id fun _ => rfl
  | snoopDone id k => exact engineStep_erase s id fun _ => rfl
  | finalize id k => exact engineStep_erase s id fun _ => rfl
  | answer id k port =>
    simp only [Worlds.step, eraseAct, hget]
    cases hid : s.engine id with
    | none => rfl
    | some e =>
      have hgetk : (eraseEngine e).snoops[k]? = e.snoops[k]?.map (eraseSnoop e.tr.genattr.secure) := List.getElem?_map ..
      rw [Option.map_some, Option.bind_some, Option.bind_some, hgetk]
      cases hk : e.snoops[k]? with
      | none => rfl
      | some g =>
        have hsec : g.st.secure = e.tr.genattr.secure := (hs id e hid g (List.mem_of_getElem? hk)).1
        have hans : snoopAnswer ls g.st.snoop g.st.addr g.st.secure ((erase s).caches port) = _ :=
          snoopAnswer_erase g.st.snoop g.st.addr g.st.secure (s.caches port)
        have hstep := step_eraseEngine ls forwardDVM e
          (.answer k port (snoopAnswer ls g.st.snoop g.st.addr g.st.secure (s.caches port)).2)
        rw [eraseAction, ← hsec] at hstep
        rw [Option.map_some, Option.bind_some, Option.bind_some]
        show Option.map erase (Option.map
          (fun e' => { (erase s).setEngine id e' with
            caches := Function.update (erase s).caches port (snoopAnswer ls g.st.snoop g.st.addr g.st.secure ((erase s).caches port)).1 })
          ((eraseEngine e).step ls forwardDVM (.answer k port (snoopAnswer ls g.st.snoop g.st.addr g.st.secure ((erase s).caches port)).2))) = _
        rw [hans, hstep]
        cases e.step ls forwardDVM (.answer k port (snoopAnswer ls g.st.snoop g.st.addr g.st.secure (s.caches port)).2) with
        | none => rfl
        | some e' =>
          exact congrArg some (erase_eq_iff.2 ⟨erase_engine_update s.engine id (eraseEngine_eraseEngine e'), erase_cache_update s.caches port _, eraseMem_eraseMem _, rfl, rfl⟩)
  | reply id k port gp =>
    simp only [Worlds.step, eraseAct, hget]
    cases hid : s.engine id with
    | none => rfl
    | some e =>
      rw [Option.map_some, Option.bind_some, Option.bind_some]
      by_cases hsec : gp.genattr.secure = e.tr.genattr.secure
      · have hstep := step_eraseEngine ls forwardDVM e (.answer k port gp)
        rw [eraseAction, ← hsec] at hstep
        rw [if_pos hsec, if_pos (show (eraseGp gp.genattr.secure gp).genattr.secure = (eraseEngine e).tr.genattr.secure from hsec), hstep]
        cases e.step ls forwardDVM (.answer k port gp) with
        | none => rfl
        | some e' => exact congrArg some (erase_setEngine s id e')
      · rw [if_neg hsec, if_neg (show ¬(eraseGp gp.genattr.secure gp).genattr.secure = (eraseEngine e).tr.genattr.secure from hsec)]
  | dsGp id k response =>
    simp only [Worlds.step, eraseAct, hget]
    cases hid : s.engine id with
    | none => rfl
    | some e =>
      have hgetk : (eraseEngine e).snoops[k]? = e.snoops[k]?.map (eraseSnoop e.tr.genattr.secure) := List.getElem?_map ..
      rw [Option.map_some, Option.bind_some, Option.bind_some, hgetk]
      cases hk : e.snoops[k]? with
      | none => rfl
      | some g =>
        obtain ⟨-, hread⟩ := hs id e hid g (List.mem_of_getElem? hk)
        have hattr : (dsGenattr (eraseEngine e).tr).secure = (dsGenattr e.tr).secure := rfl
        have hmem : (erase s).mem (dsGenattr e.tr).secure = eraseMem s.mem (dsGenattr e.tr).secure := rfl
        have hgetk' : (eraseEngine e).snoops[k]? = some (eraseSnoop e.tr.genattr.secure g) := by rw [hgetk, hk, Option.map_some]
        rw [Option.map_some, Option.bind_some, Option.bind_some, hattr, hmem, readFrom_erase]
        cases hw : g.st.dsRead with
        | true =>
          -- a read, under the security state of the transaction
          have hgen : dsGenattr e.tr = e.tr.genattr := if_pos (hread.symm.trans hw)
          have hdata : (if response = .ok then eraseData (dsGenattr e.tr).secure (readFrom (s.mem (dsGenattr e.tr).secure) (eraseSnoop e.tr.genattr.secure g).st.addr)
              else (eraseSnoop e.tr.genattr.secure g).st.dsData) =
              eraseData e.tr.genattr.secure (if response = .ok then readFrom (s.mem (dsGenattr e.tr).secure) g.st.addr else g.st.dsData) := by
            rw [apply_ite (eraseData e.tr.genattr.secure), hgen]
            rfl
          have hstep := step_eraseEngine ls forwardDVM e
            (.dsGp k (if response = .ok then readFrom (s.mem (dsGenattr e.tr).secure) g.st.addr else g.st.dsData) response)
          rw [eraseAction] at hstep
          have hread' : (eraseSnoop e.tr.genattr.secure g).st.dsRead = true := hw
          simp only [hread', Bool.true_eq_false, and_false, if_false]
          rw [hdata, hstep]
          cases e.step ls forwardDVM (.dsGp k (if response = .ok then readFrom (s.mem (dsGenattr e.tr).secure) g.st.addr else g.st.dsData) response) with
          | none => rfl
          | some e' =>
            exact congrArg some (erase_eq_iff.2 ⟨erase_engine_update s.engine id (eraseEngine_eraseEngine e'), fun _ => eraseCache_eraseCache _,
              eraseMem_eraseMem _, rfl, rfl⟩)
        | false =>
          -- a write-back, which is secure
          have hgen : dsGenattr e.tr = {} := if_neg (by rw [← hread, hw]; exact Bool.false_ne_true)
          have hstep := step_eraseEngine ls forwardDVM e (.dsGp k g.st.dsData response)
          rw [eraseAction] at hstep
          have hread' : (eraseSnoop e.tr.genattr.secure g).st.dsRead = false := hw
          rw [step_dsGp_write hgetk' hread' _ (eraseData e.tr.genattr.secure g.st.dsData), hstep,
            step_dsGp_write hk hw (if response = .ok then readFrom (s.mem (dsGenattr e.tr).secure) g.st.addr else g.st.dsData) g.st.dsData]
          cases e.step ls forwardDVM (.dsGp k g.st.dsData response) with
          | none => rfl
          | some e' =>
            have heng := erase_engine_update s.engine id (eraseEngine_eraseEngine e')
            have hsecure : (dsGenattr e.tr).secure = false → writeAt (eraseMem s.mem (dsGenattr e.tr).secure) g.st.addr ls.size
                (eraseSnoop e.tr.genattr.secure g).st.dsData = writeAt (s.mem (dsGenattr e.tr).secure) g.st.addr ls.size g.st.dsData := fun h => by
              rw [hgen] at h
              cases h
            refine congrArg some ?_
            simp only [hread', and_true]
            by_cases hok : response = .ok
            · rw [if_pos hok, if_pos hok]
              exact erase_eq_iff.2 ⟨heng, fun _ => eraseCache_eraseCache _, eraseMem_write s.mem _ hsecure, rfl, rfl⟩
            · rw [if_neg hok, if_neg hok]
              exact erase_eq_iff.2 ⟨heng, fun _ => eraseCache_eraseCache _, eraseMem_eraseMem _, rfl, rfl⟩
  | downstream id response =>
    simp only [Worlds.step, eraseAct, hget]
    cases hid : s.engine id with
    | none => rfl
    | some e =>
      rw [Option.map_some, Option.bind_some, Option.bind_some]
      by_cases hen : s.carriedOut id < e.forwarded
      · rw [if_pos hen, if_pos (show (erase s).carriedOut id < (eraseEngine e).forwarded from hen)]
        have hsec : (Ace.downstream (s.mem e.tr.genattr.secure) e.tr).2.genattr.secure = e.tr.genattr.secure :=
          (congrArg (fun t => t.genattr.secure) downstream_request :)
        obtain ⟨htr, hwrite⟩ := downstream_erase s.mem e.tr.genattr.secure e.tr
        by_cases hok : response = .ok
        · simp only [if_pos hok]
          exact congrArg some (erase_eq_iff.2 ⟨erase_engine_update s.engine id (eraseEngine_setTr e htr hsec), fun _ => eraseCache_eraseCache _,
            eraseMem_write s.mem e.tr.genattr.secure hwrite, rfl, rfl⟩)
        · simp only [if_neg hok]
          have htr' : eraseTr e.tr.genattr.secure { eraseTr e.tr.genattr.secure e.tr with response := response } =
              eraseTr e.tr.genattr.secure { e.tr with response := response } := by
            simp only [eraseTr, eraseData_eraseData]
          have hmem : e.tr.genattr.secure = false → eraseMem s.mem e.tr.genattr.secure = s.mem e.tr.genattr.secure := fun h => by
            rw [h]
            rfl
          exact congrArg some (erase_eq_iff.2 ⟨erase_engine_update s.engine id (eraseEngine_setTr e htr' rfl), fun _ => eraseCache_eraseCache _,
            eraseMem_write s.mem e.tr.genattr.secure hmem, rfl, rfl⟩)
      · rw [if_neg hen, if_neg (show ¬(erase s).carriedOut id < (eraseEngine e).forwarded from hen)]
  | cache port c =>
    refine congrArg some (erase_eq_iff.2 ⟨fun id => ?_, erase_cache_update s.caches port c, eraseMem_eraseMem _, rfl, rfl⟩)
    show ((s.engine id).map eraseEngine).map eraseEngine = _
    rw [Option.map_map, show eraseEngine ∘ eraseEngine = eraseEngine (N := N) from funext eraseEngine_eraseEngine]

/-! ### Runs -/

/-- What holds of the transactions of a system. -/
def AllSame (s : Worlds N) : Prop := ∀ id, ∀ e ∈ s.engine id, SnoopsSame e

theorem AllSame.setEngine (h : AllSame s) {id : ℕ} {e : Engine N} (he : SnoopsSame e) : AllSame (s.setEngine id e) := by
  intro i e' he'
  change Function.update s.engine id (some e) i = some e' at he'
  rw [Function.update_apply] at he'
  split at he'
  · exact Option.some.inj he' ▸ he
  · exact h i e' he'

theorem AllSame.engineStep (h : AllSame s) {id : ℕ} {a : Segments.Action N} (hs : s.engineStep ls forwardDVM id a = some s') : AllSame s' := by
  obtain ⟨e, he, hs⟩ := Option.bind_eq_some_iff.1 hs
  obtain ⟨e', he', rfl⟩ := Option.map_eq_some_iff.1 hs
  exact h.setEngine ((h id e he).step he')

theorem AllSame.step (h : AllSame s) {a : Act N} (hs : s.step ls forwardDVM a = some s') : AllSame s' := by
  cases a with
  | arrive id tr =>
    simp only [Worlds.step] at hs
    split at hs
    · rw [← Option.some.inj hs]
      refine h.setEngine fun g hg => ?_
      unfold Worlds.accepted at hg
      split at hg <;> cases hg
    · cases hs
  | generate id => exact h.engineStep hs
  | snoopDone id k => exact h.engineStep hs
  | finalize id k => exact h.engineStep hs
  | answer id k port =>
    obtain ⟨e, he, hs⟩ := Option.bind_eq_some_iff.1 hs
    obtain ⟨g, -, hs⟩ := Option.bind_eq_some_iff.1 hs
    obtain ⟨e', he', rfl⟩ := Option.map_eq_some_iff.1 hs
    exact h.setEngine ((h id e he).step he')
  | reply id k port gp =>
    obtain ⟨e, he, hs⟩ := Option.bind_eq_some_iff.1 hs
    split at hs
    · obtain ⟨e', he', rfl⟩ := Option.map_eq_some_iff.1 hs
      exact h.setEngine ((h id e he).step he')
    · cases hs
  | dsGp id k response =>
    obtain ⟨e, he, hs⟩ := Option.bind_eq_some_iff.1 hs
    obtain ⟨g, -, hs⟩ := Option.bind_eq_some_iff.1 hs
    obtain ⟨e', he', rfl⟩ := Option.map_eq_some_iff.1 hs
    dsimp only
    split
    · exact h.setEngine ((h id e he).step he')
    · exact h.setEngine ((h id e he).step he')
  | downstream id response =>
    obtain ⟨e, he, hs⟩ := Option.bind_eq_some_iff.1 hs
    split at hs
    · rw [← Option.some.inj hs]
      refine h.setEngine fun g hg => ?_
      have hreq : (if response = .ok then Ace.downstream (s.mem e.tr.genattr.secure) e.tr
          else (s.mem e.tr.genattr.secure, { e.tr with response := response })).2.request = e.tr.request := by
        split
        · exact downstream_request
        · rfl
      have hsame := h id e he g hg
      exact ⟨hsame.1.trans (congrArg (fun t => t.genattr.secure) hreq :).symm, hsame.2.trans (isReadOnce_congr hreq).symm⟩
    · cases hs
  | cache port c =>
    rw [← Option.some.inj hs]
    exact h

/-- **Systems that differ in the data of the secure world stay so.** -/
theorem nonSecure_of_run {as as' : List (Act N)} (he : erase s' = erase s) (h' : AllSame s') (h : AllSame s) (has : as'.map eraseAct = as.map eraseAct) :
    (run (fun s a => s.step ls forwardDVM a) s' as').map erase = (run (fun s a => s.step ls forwardDVM a) s as).map erase := by
  induction as generalizing s s' as' with
  | nil =>
    rw [List.map_nil, List.map_eq_nil_iff] at has
    subst has
    exact congrArg some he
  | cons a as ih =>
    obtain ⟨a', as', rfl, ha, has⟩ := List.map_eq_cons_iff.1 has
    have hstep : (s'.step ls forwardDVM a').map erase = (s.step ls forwardDVM a).map erase := by
      rw [← step_erase s' h' a', ← step_erase s h a, he, ha]
    simp only [run]
    cases hs : s.step ls forwardDVM a with
    | none =>
      rw [hs, Option.map_none, Option.map_eq_none_iff] at hstep
      rw [hstep]
      rfl
    | some t =>
      rw [hs, Option.map_some] at hstep
      obtain ⟨t', ht', het⟩ := Option.map_eq_some_iff.1 hstep
      rw [ht']
      exact ih het (h'.step ht') (h.step hs) has

/-- The accesses have the security state they should. -/
def Good (s : Worlds N) : Prop := ∀ x ∈ s.accesses, x.secure = x.requested

/-- **What a step adds to the accesses.** -/
theorem good_step {a : Act N} (hs : s.step ls forwardDVM a = some s') : Good s' ↔ Good s ∧ StepOk s a := by
  have hsame : ∀ {w : Worlds N} {p : Prop}, w.accesses = s.accesses → p → (Good w ↔ Good s ∧ p) := fun hacc hp => by
    rw [Good, Good, hacc, and_iff_left hp]
  have hcons : ∀ {w : Worlds N} {x : Access}, w.accesses = x :: s.accesses → (Good w ↔ Good s ∧ x.secure = x.requested) := fun hacc => by
    rw [Good, Good, hacc, List.forall_mem_cons, and_comm]
  have hengine : ∀ {id : ℕ} {b : Segments.Action N}, s.engineStep ls forwardDVM id b = some s' → (Good s' ↔ Good s ∧ True) := fun h => by
    obtain ⟨e, -, h⟩ := Option.bind_eq_some_iff.1 h
    obtain ⟨e', -, rfl⟩ := Option.map_eq_some_iff.1 h
    exact hsame rfl trivial
  cases a with
  | arrive id tr =>
    simp only [Worlds.step] at hs
    split at hs
    · rw [← Option.some.inj hs]
      exact hsame rfl trivial
    · cases hs
  | generate id => exact hengine hs
  | snoopDone id k => exact hengine hs
  | finalize id k => exact hengine hs
  | answer id k port =>
    obtain ⟨e, -, hs⟩ := Option.bind_eq_some_iff.1 hs
    obtain ⟨g, -, hs⟩ := Option.bind_eq_some_iff.1 hs
    obtain ⟨e', -, rfl⟩ := Option.map_eq_some_iff.1 hs
    exact hsame rfl trivial
  | reply id k port gp =>
    obtain ⟨e, -, hs⟩ := Option.bind_eq_some_iff.1 hs
    split at hs
    · obtain ⟨e', -, rfl⟩ := Option.map_eq_some_iff.1 hs
      exact hsame rfl trivial
    · cases hs
  | dsGp id k response =>
    obtain ⟨e, he, hs⟩ := Option.bind_eq_some_iff.1 hs
    obtain ⟨g, -, hs⟩ := Option.bind_eq_some_iff.1 hs
    obtain ⟨e', -, rfl⟩ := Option.map_eq_some_iff.1 hs
    have hok : StepOk s (.dsGp id k response) ↔ (dsGenattr e.tr).secure = e.tr.genattr.secure := by
      have hstep : StepOk s (.dsGp id k response) ↔ e.tr.isReadOnce = true ∨ e.tr.genattr.secure = true :=
        ⟨fun h => h e he, fun h e₁ he₁ => Option.some.inj (he.symm.trans he₁) ▸ h⟩
      rw [hstep, dsGenattr]
      by_cases hro : e.tr.isReadOnce = true
      · rw [if_pos hro]
        exact iff_of_true (.inl hro) rfl
      · rw [if_neg hro, or_iff_right hro]
        exact eq_comm
    rw [hok]
    refine hcons (x := ⟨(dsGenattr e.tr).secure, e.tr.genattr.secure⟩) ?_
    dsimp only
    split <;> rfl
  | downstream id response =>
    obtain ⟨e, -, hs⟩ := Option.bind_eq_some_iff.1 hs
    split at hs
    · rw [← Option.some.inj hs]
      exact (hcons rfl).trans (and_congr_right fun _ => iff_of_true rfl trivial)
    · cases hs
  | cache port c =>
    rw [← Option.some.inj hs]
    exact hsame rfl trivial

/-- The accesses of a run have the security state they should exactly if no step makes one that has not. -/
theorem good_iff_runOk {as : List (Act N)} (h : Good s) (hrun : run (fun s a => s.step ls forwardDVM a) s as = some s') :
    Good s' ↔ RunOk (fun s a => s.step ls forwardDVM a) StepOk s as := by
  induction as generalizing s with
  | nil =>
    rw [← Option.some.inj hrun]
    exact iff_of_true h trivial
  | cons a as ih =>
    obtain ⟨t, ht, hrest⟩ := Option.bind_eq_some_iff.1 hrun
    have hstep := good_step ht
    constructor
    · intro hgood
      have hback : ∀ {u : Worlds N} {bs : List (Act N)}, run (fun s a => s.step ls forwardDVM a) u bs = some s' → Good u := fun {u bs} => by
        induction bs generalizing u with
        | nil => exact fun hu => Option.some.inj hu ▸ hgood
        | cons b bs ihb =>
          intro hu
          obtain ⟨v, hv, hu⟩ := Option.bind_eq_some_iff.1 hu
          exact ((good_step hv).1 (ihb hu)).1
      have ht' : Good t := hback hrest
      refine ⟨(hstep.1 ht').2, fun u hu => ?_⟩
      obtain rfl := Option.some.inj (ht.symm.trans hu)
      exact (ih ht' hrest).1 hgood
    · rintro ⟨hok, hall⟩
      exact (ih (hstep.2 ⟨h, hok⟩) hrest).2 (hall t ht)

end NonSecure

/-- **Secure and non-secure.** In a run that starts without transactions, the two worlds are separated exactly if no dirty data is written back for
a non-secure transaction. -/
theorem separated_iff {N : ℕ} {ls : LineSize} {forwardDVM : Fin N → Bool} {s₀ s : Worlds N} {as : List (Act N)} (hnew : ∀ id, s₀.engine id = none)
    (hacc : s₀.accesses = []) (hrun : run (fun s a => s.step ls forwardDVM a) s₀ as = some s) :
    Separated ls forwardDVM s₀ as s ↔ RunOk (fun s a => s.step ls forwardDVM a) StepOk s₀ as := by
  have hall : ∀ {w : Worlds N}, (∀ id, w.engine id = none) → AllSame w := fun hw id e he => by
    rw [hw id] at he
    cases he
  have hgood : Good s₀ := fun x hx => absurd (hacc ▸ hx) List.not_mem_nil
  rw [← good_iff_runOk hgood hrun]
  refine ⟨fun h => h.sameState, fun h => ⟨h, fun s₀' as' hnew' he has => ?_⟩⟩
  have hsame : (run (fun s a => s.step ls forwardDVM a) s₀' as').map erase = _ := nonSecure_of_run he (hall hnew') (hall hnew) has
  rw [hrun, Option.map_some] at hsame
  exact Option.map_eq_some_iff.1 hsame

/-- Two masters, of which the second holds a dirty line. -/
def dirtyLine (secure : Bool) : Worlds 2 where
  engine := fun _ => none
  caches := fun i =>
    { cacheSz := 4, lines := fun _ => if i = 1 then { valid := true, dirty := true, data := fun _ => 7, secure } else {} }
  mem := fun _ _ => 0

/-- The first master writes to it. -/
def writeUnique (secure : Bool) : Transaction where
  portId := 0
  cmd := .write .writeUnique
  address := 0
  dataLength := 1
  data := fun _ => 1
  genattr := { domain := .inner, secure }

/-- The line is written back, then the data is written. -/
def writeBackRun (secure : Bool) : List (Act 2) :=
  [.arrive 0 (writeUnique secure), .generate 0, .generate 0, .answer 0 0 1, .snoopDone 0 0, .dsGp 0 0 .ok, .finalize 0 0, .downstream 0 .ok]

/-- A secure line is written back to the secure world. -/
theorem separated_secure : ∃ s, Separated shortLines (fun _ => false) (dirtyLine true) (writeBackRun true) s := by
  obtain ⟨s, hs⟩ : ∃ s, run (fun s a => s.step shortLines (fun _ => false) a) (dirtyLine true) (writeBackRun true) = some s := ⟨_, rfl⟩
  refine ⟨s, (separated_iff (fun _ => rfl) rfl hs).2 ?_⟩
  decide

/-- A non-secure line is, too. -/
theorem not_separated : ¬ ∀ (N : ℕ) (ls : LineSize) (forwardDVM : Fin N → Bool) (s₀ s : Worlds N) (as : List (Act N)), (∀ id, s₀.engine id = none) →
    s₀.accesses = [] → run (fun s a => s.step ls forwardDVM a) s₀ as = some s → Separated ls forwardDVM s₀ as s := by
  intro hall
  obtain ⟨s, hs, x, hx, hne⟩ : ∃ s, run (fun s a => s.step shortLines (fun _ => false) a) (dirtyLine false) (writeBackRun false) = some s ∧
      ∃ x ∈ s.accesses, x.secure ≠ x.requested := ⟨_, rfl, ⟨true, false⟩, List.mem_cons_of_mem _ List.mem_cons_self, by decide⟩
  exact hne ((hall 2 shortLines (fun _ => false) (dirtyLine false) s (writeBackRun false) (fun _ => rfl) rfl hs).sameState x hx)

end LibSystemCTLM.Ace.Secure
