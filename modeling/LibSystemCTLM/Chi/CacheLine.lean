import LibSystemCTLM.Chi.NonCachedStores

/-!
# A line of the request node's cache

`RN::CacheLine` of `private/chi/cacheline.h`, and what the snoops do to it in `cache-chi.h`. A snoop never adds to a
line: the bytes stay, and a line that is not valid stays so (`handleSnp_weakens`).

The stash snoops, which may have the line sent to the cache, are left out.
-/

namespace LibSystemCTLM.Chi

open Foundation Tlm NonCached

inductive FillGrade where
  | empty | partially | full
  deriving DecidableEq

/-- `CacheLineStatus`. -/
inductive CacheLineStatus where
  | inv | uc | uce | ud | udp | sc | sd
  deriving DecidableEq

structure CacheLine where
  valid : Bool := false
  tag : Addr := 0
  shared : Bool := false
  dirty : Bool := false
  data : ℕ → Byte := fun _ => 0
  byteEnable : ℕ → Bool := fun _ => true
  /-- Of `m_chiattr`. -/
  nonSecure : Bool := false

/-- What a line is the line of: a tag, in one of the two address spaces. -/
abbrev Key : Type := Addr × Bool

/-- The tag of an address. -/
def keyOf (addr : Addr) (nonSecure : Bool) : Key := (lineOf 6 addr, nonSecure)

namespace CacheLine

variable (l : CacheLine)

def key : Key := (l.tag, l.nonSecure)

def getFillGrade : FillGrade :=
  if (List.range 64).all l.byteEnable = true then .full
  else if (List.range 64).any l.byteEnable = true then .partially
  else .empty

def getStatus : CacheLineStatus :=
  if l.valid = false then .inv
  else if l.shared = true then (if l.dirty = true then .sd else .sc)
  else
    match l.getFillGrade with
    | .full => if l.dirty = true then .ud else .uc
    | .partially => .udp
    | .empty => .uce

def setValid (b : Bool) : CacheLine := { l with valid := b }

def setTag (tag : Addr) : CacheLine := { l with tag := tag }

def setShared (b : Bool) : CacheLine := { l with shared := b }

def setDirty (b : Bool) : CacheLine := { l with dirty := b }

def byteEnablesEnableAll : CacheLine := { l with byteEnable := fun _ => true }

def byteEnablesDisableAll : CacheLine := { l with data := fun _ => 0, byteEnable := fun _ => false, dirty := false }

/-- `InCache`, of this line. -/
def inCache (addr : Addr) (nonSecure : Bool) : Bool := l.valid && decide (l.key = keyOf addr nonSecure)

/-- `Write`. -/
def write (p : Piece) : CacheLine :=
  { l with
    data := fun k => if p.byteEnable k = true then p.data k else l.data k
    byteEnable := fun k => p.byteEnable k || l.byteEnable k }

/-- `WriteLine` of the cache. -/
def writeLine (gp : GenericPayload) (pos : ℕ) : CacheLine :=
  let l' := l.write (NonCached.writeLine gp pos)
  if l'.getFillGrade ≠ .empty then l'.setDirty true else l'

end CacheLine

/-! ### Snoops -/

inductive SnpOpcode where
  | snpOnce | snpClean | snpShared | snpNotSharedDirty | snpUnique | snpCleanShared | snpCleanInvalid | snpMakeInvalid
  | snpOnceFwd | snpCleanFwd | snpNotSharedDirtyFwd | snpSharedFwd | snpUniqueFwd
  deriving DecidableEq

inductive SnpRspOpcode where
  | snpResp | snpRespData | snpRespDataPtl | snpRespFwded | snpRespDataFwded
  deriving DecidableEq

/-- `SnpRespTxn`: the response to the home node, and the data that goes to another node. -/
structure SnpResp where
  opcode : SnpRspOpcode := .snpResp
  lineState : CacheLineStatus := .inv
  passDirty : Bool := false
  /-- `SetFwdState`, and whether dirty data is passed on there. -/
  fwded : Option (CacheLineStatus × Bool) := none
  compData : Option (CacheLineStatus × Bool) := none

namespace SnpResp

def snpRespData (lineState : CacheLineStatus) (passDirty : Bool) : SnpResp :=
  { opcode := .snpRespData, lineState := lineState, passDirty := passDirty }

def snpRespDataPtl (lineState : CacheLineStatus) (passDirty : Bool) : SnpResp :=
  { opcode := .snpRespDataPtl, lineState := lineState, passDirty := passDirty }

def snpResp (lineState : CacheLineStatus) : SnpResp := { lineState := lineState }

/-- `SetCompData`, and `SetSnpRespFwded` or `SetSnpRespDataFwded`. -/
def snpRespFwded (data : Bool) (lineState fwdedState : CacheLineStatus) (passDirty fwdedPassDirty : Bool) : SnpResp where
  opcode := if data = true then .snpRespDataFwded else .snpRespFwded
  lineState := lineState
  passDirty := passDirty
  fwded := some (fwdedState, fwdedPassDirty)
  compData := some (fwdedState, fwdedPassDirty)

/-- Dirty data goes with the response. -/
def passes (r : SnpResp) : Bool := r.passDirty || r.compData.any (·.2)

end SnpResp

namespace CacheLine

open SnpResp

variable (retToSrc : Bool) (l : CacheLine)

def handleSnpOnce : CacheLine × SnpResp :=
  match l.getStatus with
  | .uc => (l, snpRespData .uc false)
  | .uce => (l, snpResp .uc)
  | .ud => (l, snpRespData .ud false)
  | .udp => (l, snpRespDataPtl .ud false)
  | .sc => (l, if retToSrc = true then snpRespData .sc false else snpResp .sc)
  | .sd => (l, snpRespData .sd false)
  | .inv => (l, snpResp .inv)

/-- Dirty data is passed on here, of a line that stays dirty. -/
def handleSnpClean : CacheLine × SnpResp :=
  match l.getStatus with
  | .uc => (l.setShared true, snpRespData .sc false)
  | .uce => (l.setValid false, snpResp .inv)
  | .ud => (l.setShared true, snpRespData .sc true)
  | .udp => (l.setValid false, snpRespDataPtl .inv true)
  | .sc => (l, if retToSrc = true then snpRespData .sc false else snpResp .sc)
  | .sd => (l.setDirty false, snpRespData .sc true)
  | .inv => (l, snpResp .inv)

def handleSnpUnique : CacheLine × SnpResp :=
  match l.getStatus with
  | .uc => (l.setValid false, snpRespData .inv false)
  | .uce => (l.setValid false, snpResp .inv)
  | .ud => (l.setValid false, snpRespData .inv true)
  | .udp => (l.setValid false, snpRespDataPtl .inv true)
  | .sc => (l.setValid false, if retToSrc = true then snpRespData .inv false else snpResp .inv)
  | .sd => (l.setValid false, snpRespData .inv true)
  | .inv => (l.setValid false, snpResp .inv)

def handleSnpCleanShared : CacheLine × SnpResp :=
  match l.getStatus with
  | .uc => (l, snpResp .uc)
  | .uce => (l.setValid false, snpResp .inv)
  | .ud => (l.setDirty false, snpRespData .uc true)
  | .udp => (l.setValid false, snpRespDataPtl .inv true)
  | .sc => (l, snpResp .sc)
  | .sd => (l.setDirty false, snpRespData .sc true)
  | .inv => (l, snpResp .inv)

def handleSnpCleanInvalid : CacheLine × SnpResp :=
  match l.getStatus with
  | .ud | .sd => (l.setValid false, snpRespData .inv true)
  | .udp => (l.setValid false, snpRespDataPtl .inv true)
  | .uc | .uce | .sc | .inv => (l.setValid false, snpResp .inv)

def handleSnpMakeInvalid : CacheLine × SnpResp := (l.setValid false, snpResp .inv)

def handleSnpOnceFwd : CacheLine × SnpResp :=
  match l.getStatus with
  | .uc => (l, snpRespFwded false .uc .inv false false)
  | .uce => (l, snpResp .uc)
  | .ud => (l, snpRespFwded false .ud .inv false false)
  | .udp => (l, snpRespDataPtl .ud false)
  | .sc => (l, snpRespFwded false .sc .inv false false)
  | .sd => (l, snpRespFwded false .sd .inv false false)
  | .inv => (l, snpResp .inv)

/-- Also `HandleSnpNotSharedDirtyFwd` and `HandleSnpSharedFwd`. -/
def handleSnpCleanFwd : CacheLine × SnpResp :=
  match l.getStatus with
  | .uc => (l.setShared true, snpRespFwded retToSrc .sc .sc false false)
  | .uce => (l.setValid false, snpResp .inv)
  | .ud => ((l.setShared true).setDirty false, snpRespFwded true .sc .sc true false)
  | .udp => (l.setValid false, snpRespDataPtl .inv true)
  | .sc => (l, snpRespFwded retToSrc .sc .sc false false)
  | .sd => (l.setDirty false, snpRespFwded true .sc .sc true false)
  | .inv => (l, snpResp .inv)

def handleSnpUniqueFwd : CacheLine × SnpResp :=
  match l.getStatus with
  | .uc | .sc => (l.setValid false, snpRespFwded false .inv .uc false false)
  | .udp => (l.setValid false, snpRespDataPtl .inv true)
  | .ud | .sd => (l.setValid false, snpRespFwded false .inv .ud false true)
  | .uce | .inv => (l.setValid false, snpResp .inv)

/-- The `switch` of `HandleSnp`. -/
def snoop : SnpOpcode → CacheLine × SnpResp
  | .snpOnce => l.handleSnpOnce retToSrc
  | .snpClean | .snpShared | .snpNotSharedDirty => l.handleSnpClean retToSrc
  | .snpUnique => l.handleSnpUnique retToSrc
  | .snpCleanShared => l.handleSnpCleanShared
  | .snpCleanInvalid => l.handleSnpCleanInvalid
  | .snpMakeInvalid => l.handleSnpMakeInvalid
  | .snpOnceFwd => l.handleSnpOnceFwd
  | .snpCleanFwd | .snpNotSharedDirtyFwd | .snpSharedFwd => l.handleSnpCleanFwd retToSrc
  | .snpUniqueFwd => l.handleSnpUniqueFwd

def handleSnp (op : SnpOpcode) (addr : Addr) (nonSecure : Bool) : CacheLine × SnpResp :=
  if l.inCache addr nonSecure = true then l.snoop retToSrc op else (l, snpResp .inv)

end CacheLine

/-- A snoop that leaves no copy. -/
def SnpOpcode.invalidates : SnpOpcode → Bool
  | .snpUnique | .snpCleanInvalid | .snpMakeInvalid | .snpUniqueFwd => true
  | _ => false

namespace CacheLine

open SnpResp

variable {retToSrc : Bool} {l l' : CacheLine} {op : SnpOpcode} {addr : Addr} {nonSecure : Bool}

/-- The bytes are as they were, and the line is valid only if it was. -/
structure Weakens (l l' : CacheLine) : Prop where
  valid : l'.valid = true → l.valid = true
  key : l'.key = l.key
  data : l'.data = l.data
  byteEnable : l'.byteEnable = l.byteEnable

theorem Weakens.refl : Weakens l l := ⟨id, rfl, rfl, rfl⟩

theorem weakens_setValid : Weakens l (l.setValid false) := ⟨nofun, rfl, rfl, rfl⟩

theorem weakens_setShared {b : Bool} : Weakens l (l.setShared b) := ⟨id, rfl, rfl, rfl⟩

theorem weakens_setDirty {b : Bool} : Weakens l (l.setDirty b) := ⟨id, rfl, rfl, rfl⟩

theorem snoop_weakens (retToSrc : Bool) (op : SnpOpcode) (l : CacheLine) : Weakens l (l.snoop retToSrc op).1 := by
  have hboth : Weakens l ((l.setShared true).setDirty false) := ⟨id, rfl, rfl, rfl⟩
  cases op <;> cases h : l.getStatus <;>
    simp only [snoop, handleSnpOnce, handleSnpClean, handleSnpUnique, handleSnpCleanShared, handleSnpCleanInvalid,
      handleSnpMakeInvalid, handleSnpOnceFwd, handleSnpCleanFwd, handleSnpUniqueFwd, h, Weakens.refl, weakens_setValid,
      weakens_setShared, weakens_setDirty, hboth]

/-- **A snoop adds nothing to a line.** -/
theorem handleSnp_weakens : Weakens l (l.handleSnp retToSrc op addr nonSecure).1 := by
  unfold handleSnp
  split_ifs
  · exact snoop_weakens retToSrc op l
  · exact .refl

theorem snoop_invalidates (h : op.invalidates = true) : (l.snoop retToSrc op).1.valid = false := by
  cases op <;> cases h' : l.getStatus <;>
    simp_all [SnpOpcode.invalidates, snoop, handleSnpUnique, handleSnpCleanInvalid, handleSnpMakeInvalid, handleSnpUniqueFwd, setValid]

/-- An invalidating snoop leaves no valid line of the address. -/
theorem valid_handleSnp (h : op.invalidates = true) (hv : (l.handleSnp retToSrc op addr nonSecure).1.valid = true) :
    l.key ≠ keyOf addr nonSecure := by
  intro hkey
  have hvalid := handleSnp_weakens.valid hv
  rw [handleSnp, if_pos (by simp [inCache, hvalid, hkey]), snoop_invalidates h] at hv
  cases hv

/-! ### The bytes of a line -/

/-- The enabled bytes of a line, against what the line of a key holds. -/
def Fresh (l : CacheLine) (held : ℕ → Byte) : Prop := ∀ k < 64, l.byteEnable k = true → l.data k = held k

theorem Weakens.fresh {held : ℕ → Byte} (h : Weakens l l') (hf : l.Fresh held) : l'.Fresh held := by
  intro k hk hb
  rw [h.byteEnable] at hb
  rw [h.data]
  exact hf k hk hb

/-- What a store makes of the bytes of a line. -/
def merge (p : Piece) (held : ℕ → Byte) (k : ℕ) : Byte := if p.byteEnable k = true then p.data k else held k

theorem fresh_write {held : ℕ → Byte} (p : Piece) (h : l.Fresh held) : (l.write p).Fresh (merge p held) := by
  intro k hk hb
  change (if p.byteEnable k = true then p.data k else l.data k) = merge p held k
  unfold merge
  split_ifs with hp
  · rfl
  · exact h k hk (by simpa [write, hp] using hb)

theorem fresh_writeLine {held : ℕ → Byte} {gp : GenericPayload} {pos : ℕ} (h : l.Fresh held) :
    (l.writeLine gp pos).Fresh (merge (NonCached.writeLine gp pos) held) := by
  unfold writeLine
  simp only
  split_ifs
  · exact fresh_write _ h
  · exact fresh_write _ h

@[simp] theorem key_writeLine {gp : GenericPayload} {pos : ℕ} : (l.writeLine gp pos).key = l.key := by
  unfold writeLine
  simp only
  split_ifs <;> rfl

end CacheLine

end LibSystemCTLM.Chi
