import LibSystemCTLM.Chi.CacheLine
import LibSystemCTLM.Foundation.Runs

/-!
# `CleanUnique` among snoops

`cache_chi` has one transaction at a time, and takes snoops while it waits for the response. What is followed here is
one line of the cache, the transaction, what the lines it may be the line of hold for all the nodes, and which of
them another node may write: the home node sees to it that these are the ones this node was snooped for last.

`ParseResp` makes the line valid at the `Comp`, whether a snoop has made it invalid since the request or not. So the
line is up to date in all states if every such `Comp` finds it valid, or still with the right bytes (`upToDate_of_run`).
A response of the home node to `CleanUnique` is always `Comp_UC`. `clean_unique` of `cache-ace.h` looks at the line
there, and evicts it.
-/

namespace LibSystemCTLM.Chi

open Foundation Tlm

/-- `DatalessTxn`, but for cache maintenance. -/
inductive DatalessOp where
  | cleanUnique | makeUnique | evict
  deriving DecidableEq

inductive Resp where
  | uc | sc | ud_pd | sd_pd | i
  deriving DecidableEq

/-- What the thread of `HandleLoad` and `HandleStore` waits for. -/
inductive Txn where
  | dataless (op : DatalessOp) (addr : Addr) (nonSecure : Bool)
  | read (addr : Addr) (nonSecure : Bool)
  /-- All there, and a `CompAck` is yet to be sent. -/
  | compAck

namespace CacheLine

variable (l : CacheLine)

/-- `DatalessTxn::ParseResp`. -/
def parseResp (addr : Addr) : Resp → CacheLine
  | .uc => (((l.setValid true).setTag addr).setShared false).setDirty false
  | .sc => (((l.setValid true).setTag addr).setShared true).setDirty false
  | _ => l.setValid false

/-- `ParseReadResp`, of `CompData`. -/
def parseReadResp : Resp → CacheLine
  | .uc => ((l.setValid true).setShared false).setDirty false
  | .sc => ((l.setValid true).setShared true).setDirty false
  | .ud_pd => ((l.setValid true).setShared false).setDirty true
  | .sd_pd => ((l.setValid true).setShared true).setDirty true
  | .i => l.setValid false

/-- `DatalessTxn::HandleRxRsp`, of `Comp`. -/
def handleComp (op : DatalessOp) (addr : Addr) (nonSecure : Bool) (resp : Resp) : CacheLine :=
  if op = .makeUnique then { (l.parseResp addr resp).byteEnablesDisableAll with nonSecure := nonSecure }
  else l.parseResp addr resp

/-- `ReadTxn::HandleRxDat`, of the `CompData` of a line. -/
def handleCompData (addr : Addr) (nonSecure : Bool) (resp : Resp) (data : ℕ → Byte) : CacheLine :=
  let l' := ({ l with data := data, byteEnable := fun _ => true } : CacheLine).parseReadResp resp
  if l'.valid = true then { l'.byteEnablesEnableAll with tag := addr, nonSecure := nonSecure } else l'

end CacheLine

namespace CleanUnique

structure State where
  line : CacheLine := {}
  txn : Option Txn := none
  /-- What the lines hold, for all the nodes. -/
  held : Key → ℕ → Byte
  /-- The lines that another node may have for itself. -/
  elsewhere : Key → Bool := fun _ => true

inductive Event where
  | snoop (op : SnpOpcode) (addr : Addr) (nonSecure retToSrc : Bool)
  /-- Another node writes a line. -/
  | peerWrite (key : Key) (data : ℕ → Byte)
  /-- `CleanUnique`, of `HandleStore`. -/
  | cleanUnique (addr : Addr) (nonSecure : Bool)
  /-- `MakeUnique`, of a line that is not in the cache. -/
  | makeUnique (addr : Addr) (nonSecure : Bool)
  /-- `ReadShared`, `ReadClean`, `ReadNotSharedDirty` or `ReadUnique`, behind `InvalidateCacheLine`. -/
  | read (addr : Addr) (nonSecure : Bool)
  /-- `Evict`. -/
  | evict
  /-- The line is written back, and kept after `WriteCleanFull`. -/
  | copyBack (keeps : Bool)
  | comp (resp : Resp)
  | compData (resp : Resp)
  /-- `DoneEvent`. -/
  | done
  /-- `HandleStore` finds the line in the cache, and unique. -/
  | store (gp : GenericPayload) (nonSecure : Bool) (pos : ℕ)

namespace State

variable (s : State)

def setElsewhere (key : Key) (b : Bool) : State := { s with elsewhere := Function.update s.elsewhere key b }

def handleSnp (op : SnpOpcode) (addr : Addr) (nonSecure retToSrc : Bool) : State :=
  let s' := { s with line := (s.line.handleSnp retToSrc op addr nonSecure).1 }
  if op.invalidates = true then s'.setElsewhere (keyOf addr nonSecure) true else s'

def handleComp (op : DatalessOp) (addr : Addr) (nonSecure : Bool) (resp : Resp) : State :=
  let l := s.line.handleComp op addr nonSecure resp
  { s.setElsewhere (addr, nonSecure) !l.valid with line := l, txn := if op = .evict then none else some .compAck }

def handleCompData (addr : Addr) (nonSecure : Bool) (resp : Resp) : State :=
  let l := s.line.handleCompData addr nonSecure resp (s.held (addr, nonSecure))
  { s.setElsewhere (addr, nonSecure) !l.valid with line := l, txn := some .compAck }

def writeLine (gp : GenericPayload) (pos : ℕ) : State :=
  { s with
    line := s.line.writeLine gp pos
    held := Function.update s.held s.line.key (CacheLine.merge (NonCached.writeLine gp pos) (s.held s.line.key)) }

end State

def step (s : State) : Event → Option State
  | .snoop op addr nonSecure retToSrc => some (s.handleSnp op addr nonSecure retToSrc)
  | .peerWrite key data => if s.elsewhere key = true then some { s with held := Function.update s.held key data } else none
  | .cleanUnique addr nonSecure =>
    if s.txn.isNone = true ∧ s.line.inCache addr nonSecure = true ∧ s.line.shared = true then
      some { s with txn := some (.dataless .cleanUnique s.line.tag s.line.nonSecure) }
    else none
  | .makeUnique addr nonSecure =>
    if s.txn.isNone = true ∧ s.line.valid = false then
      some { s with txn := some (.dataless .makeUnique (lineOf 6 addr) nonSecure) }
    else none
  | .read addr nonSecure =>
    if s.txn.isNone = true ∧ s.line.valid = false then some { s with txn := some (.read (lineOf 6 addr) nonSecure) } else none
  | .evict =>
    if s.txn.isNone = true ∧ s.line.valid = true then
      some { s with line := s.line.setValid false, txn := some (.dataless .evict s.line.tag s.line.nonSecure) }
    else none
  | .copyBack keeps =>
    if s.txn.isNone = true then
      some (if keeps = true then { s with line := s.line.setDirty false }
        else { s.setElsewhere s.line.key true with line := s.line.setValid false })
    else none
  | .comp resp =>
    match s.txn with
    | some (.dataless op addr nonSecure) => some (s.handleComp op addr nonSecure resp)
    | _ => none
  | .compData resp =>
    match s.txn with
    | some (.read addr nonSecure) => some (s.handleCompData addr nonSecure resp)
    | _ => none
  | .done =>
    match s.txn with
    | some .compAck => some { s with txn := none }
    | _ => none
  | .store gp nonSecure pos =>
    if s.txn.isNone = true ∧ s.line.inCache (NonCached.addr gp pos) nonSecure = true ∧ s.line.shared = false then
      some (s.writeLine gp pos)
    else none

/-! ### The property -/

/-- **A valid line is up to date**, and a store merges into what it holds. -/
structure UpToDate (s : State) : Prop where
  fresh : s.line.valid = true → s.line.Fresh (s.held s.line.key)
  merges : ∀ gp nonSecure pos s', step s (.store gp nonSecure pos) = some s' →
    s'.line.Fresh (CacheLine.merge (NonCached.writeLine gp pos) (s.held s.line.key))

/-- A `Comp` that makes the line valid finds it valid, or nobody has written it since. -/
def Fair (s : State) : Event → Prop
  | .comp .uc | .comp .sc => s.line.valid = true ∨ s.line.Fresh (s.held s.line.key)
  | _ => True

/-! ### Steps -/

/-- What holds of a line along a run. -/
structure Inv (s : State) : Prop where
  fresh : s.line.valid = true → s.line.Fresh (s.held s.line.key)
  /-- A valid line is not written elsewhere. -/
  here : s.line.valid = true → s.elsewhere s.line.key = false
  /-- The line is the one that is cleaned or evicted. -/
  asked : ∀ {op addr nonSecure}, s.txn = some (.dataless op addr nonSecure) → op ≠ .makeUnique → s.line.key = (addr, nonSecure)

theorem inv_init (held : Key → ℕ → Byte) : Inv { held := held } := ⟨nofun, nofun, nofun⟩

variable {s s' : State}

theorem upToDate_of_inv (hi : Inv s) : UpToDate s where
  fresh := hi.fresh
  merges := by
    intro gp nonSecure pos s' h
    simp only [step] at h
    split_ifs at h with hguard
    cases h
    exact CacheLine.fresh_writeLine (hi.fresh ((Bool.and_eq_true _ _ ▸ hguard.2.1).1))

theorem Inv.handleSnp (hi : Inv s) (op : SnpOpcode) (addr : Addr) (nonSecure retToSrc : Bool) :
    Inv (s.handleSnp op addr nonSecure retToSrc) := by
  have hw : s.line.Weakens (s.line.handleSnp retToSrc op addr nonSecure).1 := CacheLine.handleSnp_weakens
  have hfresh : (s.line.handleSnp retToSrc op addr nonSecure).1.valid = true →
      (s.line.handleSnp retToSrc op addr nonSecure).1.Fresh (s.held (s.line.handleSnp retToSrc op addr nonSecure).1.key) := by
    intro hv
    rw [hw.key]
    exact hw.fresh (hi.fresh (hw.valid hv))
  unfold State.handleSnp
  simp only
  split_ifs with hop
  · refine ⟨hfresh, fun hv => ?_, fun h hne => hw.key.trans (hi.asked h hne)⟩
    -- the line that stays valid is another one
    have hne := CacheLine.valid_handleSnp hop hv
    change Function.update s.elsewhere (keyOf addr nonSecure) true (s.line.handleSnp retToSrc op addr nonSecure).1.key = false
    rw [hw.key, Function.update_of_ne hne]
    exact hi.here (hw.valid hv)
  · refine ⟨hfresh, fun hv => ?_, fun h hne => hw.key.trans (hi.asked h hne)⟩
    change s.elsewhere (s.line.handleSnp retToSrc op addr nonSecure).1.key = false
    rw [hw.key]
    exact hi.here (hw.valid hv)

theorem Inv.peerWrite {key : Key} (hi : Inv s) (data : ℕ → Byte) (h : s.elsewhere key = true) :
    Inv { s with held := Function.update s.held key data } := by
  refine ⟨fun hv => ?_, hi.here, hi.asked⟩
  have hne : s.line.key ≠ key := by
    rintro rfl
    rw [hi.here hv] at h
    cases h
  change s.line.Fresh (Function.update s.held key data s.line.key)
  rw [Function.update_of_ne hne]
  exact hi.fresh hv

/-- **A `Comp`**: what it makes valid has the right bytes, if it was valid or nobody has written it. -/
theorem Inv.handleComp {op : DatalessOp} {addr : Addr} {nonSecure : Bool} {resp : Resp} (hi : Inv s)
    (ht : s.txn = some (.dataless op addr nonSecure)) (hok : Fair s (.comp resp)) : Inv (s.handleComp op addr nonSecure resp) := by
  have htxn : ∀ {op' addr' nonSecure'}, (s.handleComp op addr nonSecure resp).txn = some (.dataless op' addr' nonSecure') → False := by
    intro op' addr' nonSecure' h
    simp only [State.handleComp] at h
    split_ifs at h
    cases h
  have hkey : (s.line.handleComp op addr nonSecure resp).valid = true → (s.line.handleComp op addr nonSecure resp).key = (addr, nonSecure) := by
    intro hv
    by_cases hop : op = .makeUnique
    · cases resp <;> simp_all [CacheLine.handleComp, CacheLine.parseResp, CacheLine.key, CacheLine.byteEnablesDisableAll, CacheLine.setValid,
        CacheLine.setTag, CacheLine.setShared, CacheLine.setDirty]
    · have hns : s.line.nonSecure = nonSecure := congrArg Prod.snd (hi.asked ht hop)
      cases resp <;> simp_all [CacheLine.handleComp, CacheLine.parseResp, CacheLine.key, CacheLine.setValid, CacheLine.setTag, CacheLine.setShared,
        CacheLine.setDirty]
  refine ⟨fun hv => ?_, fun hv => ?_, fun h => (htxn h).elim⟩
  · change (s.line.handleComp op addr nonSecure resp).valid = true at hv
    change (s.line.handleComp op addr nonSecure resp).Fresh (s.held (s.line.handleComp op addr nonSecure resp).key)
    rw [hkey hv]
    by_cases hop : op = .makeUnique
    · rw [CacheLine.handleComp, if_pos hop]
      intro k _ hb
      cases hb
    · have hold : s.line.Fresh (s.held (addr, nonSecure)) := by
        rw [← hi.asked ht hop]
        cases resp with
        | uc | sc => exact hok.elim hi.fresh id
        | ud_pd | sd_pd | i => simp [CacheLine.handleComp, CacheLine.parseResp, hop, CacheLine.setValid] at hv
      rw [CacheLine.handleComp, if_neg hop]
      cases resp <;> exact hold
  · change (s.line.handleComp op addr nonSecure resp).valid = true at hv
    change Function.update s.elsewhere (addr, nonSecure) (!(s.line.handleComp op addr nonSecure resp).valid)
      (s.line.handleComp op addr nonSecure resp).key = false
    rw [hkey hv, hv, Function.update_self]
    rfl

theorem handleCompData_valid {l : CacheLine} {addr : Addr} {nonSecure : Bool} {resp : Resp} {data : ℕ → Byte}
    (hv : (l.handleCompData addr nonSecure resp data).valid = true) :
    (l.handleCompData addr nonSecure resp data).key = (addr, nonSecure) ∧ (l.handleCompData addr nonSecure resp data).data = data := by
  unfold CacheLine.handleCompData at hv ⊢
  simp only at hv ⊢
  split_ifs at hv ⊢ with h
  · cases resp <;> exact ⟨rfl, rfl⟩
  · exact absurd hv h

theorem inv_handleCompData (s : State) (addr : Addr) (nonSecure : Bool) (resp : Resp) : Inv (s.handleCompData addr nonSecure resp) := by
  refine ⟨fun hv => ?_, fun hv => ?_, nofun⟩
  · obtain ⟨hkey, hdata⟩ := handleCompData_valid hv
    intro k _ _
    exact (congrFun hdata k).trans (congrFun (congrArg s.held hkey.symm) k)
  · obtain ⟨hkey, -⟩ := handleCompData_valid hv
    change Function.update s.elsewhere (addr, nonSecure) (!(s.handleCompData addr nonSecure resp).line.valid)
      (s.handleCompData addr nonSecure resp).line.key = false
    rw [hv, show (s.handleCompData addr nonSecure resp).line.key = _ from hkey, Function.update_self]
    rfl

theorem Inv.writeLine (hi : Inv s) (hv : s.line.valid = true) (ht : s.txn = none) (gp : GenericPayload) (pos : ℕ) :
    Inv (s.writeLine gp pos) := by
  refine ⟨fun _ => ?_, fun _ => ?_, fun h => ?_⟩
  · change (s.line.writeLine gp pos).Fresh (Function.update s.held s.line.key _ (s.line.writeLine gp pos).key)
    rw [CacheLine.key_writeLine, Function.update_self]
    exact CacheLine.fresh_writeLine (hi.fresh hv)
  · change s.elsewhere (s.line.writeLine gp pos).key = false
    rw [CacheLine.key_writeLine]
    exact hi.here hv
  · change s.txn = _ at h
    rw [ht] at h
    cases h

/-- **A step keeps the line up to date.** -/
theorem Inv.step {e : Event} (hi : Inv s) (hok : Fair s e) (h : step s e = some s') : Inv s' := by
  cases e with
  | snoop op addr nonSecure retToSrc =>
    cases h
    exact hi.handleSnp op addr nonSecure retToSrc
  | peerWrite key data =>
    simp only [CleanUnique.step] at h
    split_ifs at h with hel
    cases h
    exact hi.peerWrite data hel
  | cleanUnique addr nonSecure =>
    simp only [CleanUnique.step] at h
    split_ifs at h
    cases h
    exact ⟨hi.fresh, hi.here, by rintro _ _ _ ⟨⟩ -; rfl⟩
  | makeUnique addr nonSecure =>
    simp only [CleanUnique.step] at h
    split_ifs at h
    cases h
    exact ⟨hi.fresh, hi.here, by rintro _ _ _ ⟨⟩ hne; exact absurd rfl hne⟩
  | read addr nonSecure =>
    simp only [CleanUnique.step] at h
    split_ifs at h
    cases h
    exact ⟨hi.fresh, hi.here, nofun⟩
  | evict =>
    simp only [CleanUnique.step] at h
    split_ifs at h
    cases h
    exact ⟨nofun, nofun, by rintro _ _ _ ⟨⟩ -; rfl⟩
  | copyBack keeps =>
    simp only [CleanUnique.step] at h
    split_ifs at h with hnone hk
    · cases h
      exact ⟨hi.fresh, hi.here, hi.asked⟩
    · cases h
      exact ⟨nofun, nofun, hi.asked⟩
  | comp resp =>
    simp only [CleanUnique.step] at h
    split at h
    next op addr nonSecure ht =>
      cases h
      exact hi.handleComp ht hok
    · cases h
  | compData resp =>
    simp only [CleanUnique.step] at h
    split at h
    next addr nonSecure ht =>
      cases h
      exact inv_handleCompData s addr nonSecure resp
    · cases h
  | done =>
    simp only [CleanUnique.step] at h
    split at h
    · cases h
      exact ⟨hi.fresh, hi.here, nofun⟩
    · cases h
  | store gp nonSecure pos =>
    simp only [CleanUnique.step] at h
    split_ifs at h with hguard
    cases h
    exact hi.writeLine ((Bool.and_eq_true _ _ ▸ hguard.2.1).1) (Option.isNone_iff_eq_none.1 hguard.1) gp pos

/-- **The line is up to date in every state** of a run in which no `Comp` brings back a line that was invalidated and
written elsewhere. -/
theorem upToDate_of_run {held : Key → ℕ → Byte} (h : Reach step Fair { held := held } s) : UpToDate s :=
  upToDate_of_inv (h.invariant (inv_init held) fun hi hok hs => hi.step hok hs)

/-- A line is read, and cleaned of other copies for a store of a byte. -/
def storeShared (between : List Event) : List Event :=
  [.read 0 true, .compData .sc, .done, .cleanUnique 0 true] ++ between ++
    [.comp .uc, .done, .store { dataLength := 1, data := fun _ => 5 } true 0]

instance : ∀ s e, Decidable (Fair s e)
  | s, .comp .uc | s, .comp .sc => inferInstanceAs (Decidable (s.line.valid = true ∨ ∀ k < 64, s.line.byteEnable k = true → s.line.data k = s.held s.line.key k))
  | _, .comp .ud_pd | _, .comp .sd_pd | _, .comp .i | _, .snoop _ _ _ _ | _, .peerWrite _ _ | _, .cleanUnique _ _ | _, .makeUnique _ _
  | _, .read _ _ | _, .evict | _, .copyBack _ | _, .compData _ | _, .done | _, .store _ _ _ => .isTrue trivial

/-- A snoop that leaves the line shared. -/
theorem upToDate_snpShared :
    ∃ s, run step { held := fun _ _ => 0 } (storeShared [.snoop .snpShared 0 true false]) = some s ∧ UpToDate s := by
  have hok : RunOk step Fair { held := fun _ _ => 0 } (storeShared [.snoop .snpShared 0 true false]) := by decide +kernel
  have hsome : (run step { held := fun _ _ => 0 } (storeShared [.snoop .snpShared 0 true false])).isSome = true := by decide +kernel
  obtain ⟨s, hs⟩ := Option.isSome_iff_exists.1 hsome
  exact ⟨s, hs, upToDate_of_run (Reach.refl.of_run hok hs)⟩

/-- A line that `SnpUnique` took is back with the `Comp`, and the store makes the bytes dirty that another node has
written since. -/
theorem not_upToDate_snpUnique : ¬∀ held s, Reach step anyStep { held := held } s → UpToDate s := by
  intro h
  let events := storeShared [.snoop .snpUnique 0 true false, .peerWrite (0, true) fun _ => 7]
  have hend : (run step { held := fun _ _ => 0 } events).map
      (fun s => (s.line.getStatus, s.line.byteEnable 1, s.line.data 1, s.held s.line.key 1)) = some (.ud, true, 0, 7) := by decide +kernel
  obtain ⟨s, hs, hfinal⟩ := Option.map_eq_some_iff.1 hend
  obtain ⟨hstatus, hb, hdata, hheld⟩ : s.line.getStatus = .ud ∧ s.line.byteEnable 1 = true ∧ s.line.data 1 = 0 ∧ s.held s.line.key 1 = 7 := by
    simpa using hfinal
  have hv : s.line.valid = true := by
    by_contra hv
    rw [CacheLine.getStatus, if_pos (by simpa using hv)] at hstatus
    cases hstatus
  have hsame := (h _ s (reach_of_run hs)).fresh hv 1 (by norm_num) hb
  rw [hdata, hheld] at hsame
  revert hsame
  decide

end CleanUnique

end LibSystemCTLM.Chi
