import LibSystemCTLM.Chi.CacheLine
import LibSystemCTLM.Chi.SlaveAtomics
import Mathlib.Data.List.FinRange

/-!
# Atomics and the copies of the request nodes

An atomic goes past the cache of its requester (`HandleAtomic` of `cache-chi.h`) to the home node, which snoops the
nodes that may have the line with `SnpUnique`, writes dirty data out, and has the slave node do the atomic.

The requester itself is not snooped, whatever its `SnoopMe` says: `GetSnpMe` is yet to be written. Nor is any node for
a sub-opcode other than the first of the stores and the loads, which `IsSnoopingReq` does not list. So the copies that
remain are those of the requester, and then of all. They are right if they have no byte that the atomic changes, and
the requester none that is dirty (`atomic_coherent_iff`).

All that is followed is one line of the nodes. When dirty data is written out for an atomic, the byte enables are not
copied, and what is in their place is left open (`junk`).
-/

namespace LibSystemCTLM.Chi.AtomicSnoops

open Foundation Tlm Atomics

/-- A request node, and what the snoop filter of its port says of the line. -/
structure Node where
  line : CacheLine := {}
  allocated : Bool := false

structure Sys (n : ℕ) where
  node : Fin n → Node
  mem : Addr → Byte

/-- The request of an atomic, with its data. -/
structure Request (n : ℕ) where
  srcID : Fin n
  form : Form
  address : Addr
  nonSecure : Bool
  snpAttr : Bool
  snoopMe : Bool
  /-- The outbound length. -/
  dataLength : ℕ
  endian : Endian
  data : ℕ → Byte
  /-- It is in one line. -/
  fits : offsetOf 6 address + form.inbound dataLength ≤ 64

namespace Request

variable {n : ℕ} (req : Request n)

/-- `GetSnpMe`. -/
def getSnpMe (_req : Request n) : Bool := false

/-- `IsSnoopingReq`, of an atomic. -/
def isSnoopingReq : Bool := decide (req.form.opcode ∈ [0x28, 0x30, 0x38, 0x39])

/-- The offset of the atomic in the line. -/
def offset : ℕ := offsetOf 6 req.address

/-- How many bytes it is about. -/
def length : ℕ := req.form.inbound req.dataLength

/-- The node has a copy of a byte of the line. -/
def Copy (node : Node) (k : ℕ) : Prop := node.line.inCache req.address req.nonSecure = true ∧ node.line.byteEnable k = true

instance (node : Node) (k : ℕ) : Decidable (req.Copy node k) := inferInstanceAs (Decidable (_ ∧ _))

end Request

section Home

variable {n : ℕ} (s : Sys n) (req : Request n)

/-- `FillPortsToSnoop`. -/
def fillPortsToSnoop : List (Fin n) :=
  (List.finRange n).filter fun i => (decide (i ≠ req.srcID) || req.getSnpMe) && (s.node i).allocated

/-- The ports that are snooped, if any is (`RouteInternal`). -/
def portsToSnoop : List (Fin n) := if req.snpAttr = true ∧ req.isSnoopingReq = true then fillPortsToSnoop s req else []

/-- `ReqTxn` of the home node, as far as the responses to the snoops go to it. -/
structure ReqTxn where
  data : ℕ → Byte := fun _ => 0
  dataLength : ℕ
  gotSnpData : Bool := false
  passDirty : Bool := false

/-- `CopySnpData` and `SetResp`. A response with data makes the length that of a line. -/
def ReqTxn.copySnpData (t : ReqTxn) (l : CacheLine) (r : SnpResp) : ReqTxn :=
  if r.opcode = .snpRespData ∨ r.opcode = .snpRespDataPtl then
    { data := fun k => if l.byteEnable k = true then l.data k else 0
      dataLength := 64
      gotSnpData := true
      passDirty := t.passDirty || r.passDirty }
  else { t with passDirty := t.passDirty || r.passDirty }

/-- A port is snooped, and responds. -/
def snoopPort (p : Sys n × ReqTxn) (i : Fin n) : Sys n × ReqTxn :=
  let (l, r) := (p.1.node i).line.handleSnp true .snpUnique req.address req.nonSecure
  ({ p.1 with node := Function.update p.1.node i { (p.1.node i) with line := l } }, p.2.copySnpData l r)

/-- The responses come in the order of the ports that is given. -/
def snoopPorts (ports : List (Fin n)) : Sys n × ReqTxn := ports.foldl (snoopPort req) (s, { dataLength := req.dataLength })

/-- `WriteNoSnpPtl`, from the address of the atomic to the end of the line. -/
def writeOut (junk : ℕ → Bool) (data : ℕ → Byte) (mem : Addr → Byte) : Addr → Byte := fun a =>
  if lineOf 6 a = lineOf 6 req.address ∧ req.offset ≤ offsetOf 6 a ∧ junk (offsetOf 6 a) = true then data (offsetOf 6 a) else mem a

/-- The memory that the slave node does the atomic on. -/
def memOf (junk : ℕ → Bool) (ports : List (Fin n)) : Addr → Byte :=
  let t := (snoopPorts s req ports).2
  if t.gotSnpData = true ∧ t.passDirty = true then writeOut req junk t.data s.mem else s.mem

/-- The atomic, from the request to the end. -/
def atomic (host : Endian) (junk : ℕ → Bool) (ports : List (Fin n)) : Option (Sys n) :=
  let (s', t) := snoopPorts s req ports
  (handleAtomic host (memOf s req junk ports) ⟨req.form.opcode, req.address, t.dataLength, req.endian, req.data⟩).map fun o =>
    { s' with mem := o.mem }

end Home

/-! ### What a load returns -/

section Loads

variable {n : ℕ}

/-- The address of a byte of the atomic. -/
def Request.byteAddr (req : Request n) (k : ℕ) : Addr := req.address + BitVec.ofNat 64 k

/-- What a load of a byte may return: what is in a full line of the node, or else in the line of some node, or else in memory. -/
inductive Returns (s : Sys n) (req : Request n) (i : Fin n) (k : ℕ) : Byte → Prop
  | hit : (s.node i).line.inCache req.address req.nonSecure = true → (s.node i).line.getFillGrade = .full →
      Returns s req i k ((s.node i).line.data (req.offset + k))
  | copy (j : Fin n) : ¬((s.node i).line.inCache req.address req.nonSecure = true ∧ (s.node i).line.getFillGrade = .full) →
      req.Copy (s.node j) (req.offset + k) → Returns s req i k ((s.node j).line.data (req.offset + k))
  | memory : (∀ j, ¬req.Copy (s.node j) (req.offset + k)) → Returns s req i k (s.mem (req.byteAddr k))

/-- The node has the line. -/
def Request.Has (req : Request n) (node : Node) : Prop := node.line.inCache req.address req.nonSecure = true

/-- The copies are up to date, one of them at most is dirty, those that are filled in part are, and the snoop filters know of them. -/
structure Coherent (s : Sys n) (req : Request n) (held : ℕ → Byte) : Prop where
  fresh : ∀ i, req.Has (s.node i) → (s.node i).line.Fresh held
  owner : ∀ i j, req.Has (s.node i) → req.Has (s.node j) → (s.node i).line.dirty = true → (s.node j).line.dirty = true → i = j
  partially : ∀ i, req.Has (s.node i) → (s.node i).line.getFillGrade = .partially → (s.node i).line.dirty = true
  allocated : ∀ i, req.Has (s.node i) → (s.node i).allocated = true

/-- **No load returns what was there before the atomic** of a byte that is changed, and the dirty bytes of the requester
are there for it. -/
structure Right (s s' : Sys n) (req : Request n) (held : ℕ → Byte) (seen : Addr → Byte) : Prop where
  loads : ∀ i, ∀ k < req.length, s'.mem (req.byteAddr k) ≠ held (req.offset + k) → ¬Returns s' req i k (held (req.offset + k))
  dirty : ∀ k < req.length, req.Copy (s.node req.srcID) (req.offset + k) → (s.node req.srcID).line.dirty = true →
    seen (req.byteAddr k) = (s.node req.srcID).line.data (req.offset + k)

/-- A node is not snooped: the requester, and any if the request snoops none. -/
def Request.Unsnooped (req : Request n) (i : Fin n) : Prop := i = req.srcID ∨ ¬(req.snpAttr = true ∧ req.isSnoopingReq = true)

/-- The atomic leaves the bytes as they are of which a node that is not snooped has a copy, and memory is up to date where
the requester has a copy that is dirty. -/
structure Fair (s s' : Sys n) (req : Request n) (held : ℕ → Byte) : Prop where
  kept : ∀ i, req.Unsnooped i → ∀ k < req.length, req.Copy (s.node i) (req.offset + k) → s'.mem (req.byteAddr k) = held (req.offset + k)
  clean : ∀ k < req.length, req.Copy (s.node req.srcID) (req.offset + k) → (s.node req.srcID).line.dirty = true →
    s.mem (req.byteAddr k) = held (req.offset + k)

end Loads

/-! ### The snoops -/

section Snoops

variable {n : ℕ} {s s' : Sys n} {req : Request n} {held : ℕ → Byte} {ports : List (Fin n)} {i : Fin n} {junk : ℕ → Bool} {host : Endian}
  {p : Sys n × ReqTxn}

theorem node_snoopPort_of_ne {j : Fin n} (h : j ≠ i) : (snoopPort req p i).1.node j = p.1.node j := Function.update_of_ne h _ _

theorem node_snoopPort_self : (snoopPort req p i).1.node i =
    { (p.1.node i) with line := ((p.1.node i).line.handleSnp true .snpUnique req.address req.nonSecure).1 } := Function.update_self _ _ _

/-- A node that was snooped does not have the line. -/
theorem not_has_snoopPort : ¬req.Has ((snoopPort req p i).1.node i) := by
  rw [node_snoopPort_self]
  intro h
  obtain ⟨hv, hk⟩ := Bool.and_eq_true_iff.1 h
  refine CacheLine.valid_handleSnp rfl hv ?_
  rw [← CacheLine.handleSnp_weakens.key]
  exact of_decide_eq_true hk

/-- A line that is not there does not come by a snoop. -/
theorem has_of_snoopPort {j : Fin n} (h : req.Has ((snoopPort req p i).1.node j)) : j ≠ i ∧ req.Has (p.1.node j) := by
  have hne : j ≠ i := by
    rintro rfl
    exact not_has_snoopPort h
  rw [node_snoopPort_of_ne hne] at h
  exact ⟨hne, h⟩

/-- The nodes that have the line after the snoops are those that had it and were not snooped, and their lines are the same. -/
theorem foldl_snoopPort (p : Sys n × ReqTxn) (ports : List (Fin n)) (j : Fin n) :
    (j ∉ ports → (ports.foldl (snoopPort req) p).1.node j = p.1.node j) ∧
      (req.Has ((ports.foldl (snoopPort req) p).1.node j) → j ∉ ports ∧ req.Has (p.1.node j)) := by
  induction ports generalizing p with
  | nil => exact ⟨fun _ => rfl, fun h => ⟨List.not_mem_nil, h⟩⟩
  | cons i ports ih =>
    refine ⟨fun hj => ?_, fun h => ?_⟩
    · rw [List.mem_cons, not_or] at hj
      exact ((ih _).1 hj.2).trans (node_snoopPort_of_ne hj.1)
    · obtain ⟨hmem, hhas⟩ := (ih _).2 h
      obtain ⟨hne, hhas⟩ := has_of_snoopPort hhas
      exact ⟨by rw [List.mem_cons, not_or]; exact ⟨hne, hmem⟩, hhas⟩

/-- A response passes dirty data on only if the line is dirty. -/
theorem dirty_of_passDirty {l : CacheLine}
    (hpart : l.inCache req.address req.nonSecure = true → l.getFillGrade = .partially → l.dirty = true)
    (h : (l.handleSnp true .snpUnique req.address req.nonSecure).2.passDirty = true) :
    l.inCache req.address req.nonSecure = true ∧ l.dirty = true := by
  unfold CacheLine.handleSnp at h
  split_ifs at h with hin
  · refine ⟨hin, ?_⟩
    by_contra hd
    have hd : l.dirty = false := Bool.eq_false_iff.2 hd
    have hnot : l.getStatus ≠ .ud ∧ l.getStatus ≠ .udp ∧ l.getStatus ≠ .sd := by
      cases hg : l.getFillGrade <;> cases hs : l.shared <;> cases hv : l.valid <;> simp_all [CacheLine.getStatus]
    cases hs : l.getStatus <;>
      simp_all [CacheLine.snoop, CacheLine.handleSnpUnique, SnpResp.snpRespData, SnpResp.snpResp]
  · cases h

theorem passDirty_copySnpData (t : ReqTxn) (l : CacheLine) (r : SnpResp) : (t.copySnpData l r).passDirty = (t.passDirty || r.passDirty) := by
  unfold ReqTxn.copySnpData
  split_ifs <;> rfl

/-- If dirty data is passed on, a node that was snooped had it. -/
theorem dirty_of_snoopPorts (hpart : ∀ i, req.Has (p.1.node i) → (p.1.node i).line.getFillGrade = .partially → (p.1.node i).line.dirty = true)
    (h : (ports.foldl (snoopPort req) p).2.passDirty = true) :
    p.2.passDirty = true ∨ ∃ i ∈ ports, req.Has (p.1.node i) ∧ (p.1.node i).line.dirty = true := by
  induction ports generalizing p with
  | nil => exact .inl h
  | cons i ports ih =>
    have hpart' : ∀ j, req.Has ((snoopPort req p i).1.node j) → ((snoopPort req p i).1.node j).line.getFillGrade = .partially →
        ((snoopPort req p i).1.node j).line.dirty = true := by
      intro j hj
      obtain ⟨hne, hhas⟩ := has_of_snoopPort hj
      rw [node_snoopPort_of_ne hne]
      exact hpart j hhas
    rcases ih hpart' h with hpass | ⟨j, hj, hhas, hdirty⟩
    · have hpass' : (p.2.passDirty || ((p.1.node i).line.handleSnp true .snpUnique req.address req.nonSecure).2.passDirty) = true :=
        (passDirty_copySnpData _ _ _).symm.trans hpass
      rcases (Bool.or_eq_true _ _).mp hpass' with hpass | hpass
      · exact .inl hpass
      · obtain ⟨hhas, hdirty⟩ := dirty_of_passDirty (hpart i) hpass
        exact .inr ⟨i, List.mem_cons_self, hhas, hdirty⟩
    · obtain ⟨hne, hhas⟩ := has_of_snoopPort hhas
      rw [node_snoopPort_of_ne hne] at hdirty
      exact .inr ⟨j, List.mem_cons_of_mem _ hj, hhas, hdirty⟩

/-- Of the nodes that have the line, those are snooped that are not `Unsnooped`. -/
theorem not_mem_portsToSnoop_iff (hco : Coherent s req held) (hi : req.Has (s.node i)) : i ∉ portsToSnoop s req ↔ req.Unsnooped i := by
  unfold portsToSnoop
  split_ifs with hsnoop
  · rw [fillPortsToSnoop, List.mem_filter, hco.allocated i hi, Request.Unsnooped]
    simp [Request.getSnpMe, hsnoop]
  · exact ⟨fun _ => .inr hsnoop, fun _ => List.not_mem_nil⟩

/-- If the requester has dirty data, none is written out, and the atomic is done on what memory held before. -/
theorem memOf_of_dirty (hco : Coherent s req held) (hports : ports.Perm (portsToSnoop s req)) (hi : req.Has (s.node req.srcID))
    (hd : (s.node req.srcID).line.dirty = true) : memOf s req junk ports = s.mem := by
  unfold memOf
  refine if_neg fun h => ?_
  rcases dirty_of_snoopPorts (p := (s, { dataLength := req.dataLength })) hco.partially h.2 with hpass | ⟨j, hj, hhas, hdirty⟩
  · cases hpass
  · obtain rfl := hco.owner j req.srcID hhas hi hdirty hd
    exact (not_mem_portsToSnoop_iff hco hi).2 (.inl rfl) (hports.mem_iff.1 hj)

/-! ### The result -/

theorem copy_of_full {node : Node} {k : ℕ} (hi : req.Has node) (hfull : node.line.getFillGrade = .full) (hk : k < 64) : req.Copy node k := by
  refine ⟨hi, ?_⟩
  unfold CacheLine.getFillGrade at hfull
  split_ifs at hfull with hall
  exact List.all_eq_true.1 hall k (List.mem_range.2 hk)

theorem node_of_atomic (h : atomic s req host junk ports = some s') : s'.node = (snoopPorts s req ports).1.node := by
  obtain ⟨o, -, rfl⟩ := Option.map_eq_some_iff.1 h
  rfl

/-- A copy that a node has after the atomic is one that it had, and was not snooped. -/
theorem copy_of_atomic (hco : Coherent s req held) (hports : ports.Perm (portsToSnoop s req)) (h : atomic s req host junk ports = some s') {k : ℕ}
    (hcopy : req.Copy (s'.node i) k) : req.Unsnooped i ∧ req.Copy (s.node i) k := by
  rw [node_of_atomic h] at hcopy
  obtain ⟨hmem, hhas⟩ := (foldl_snoopPort _ ports i).2 hcopy.1
  have hsame : (snoopPorts s req ports).1.node i = s.node i := (foldl_snoopPort _ ports i).1 hmem
  rw [hsame] at hcopy
  exact ⟨(not_mem_portsToSnoop_iff hco hhas).1 fun hi => hmem (hports.mem_iff.2 hi), hcopy⟩

end Snoops

/-- One byte at the start of a line, and one request node. -/
def addOne : Request 1 := ⟨0, .store .add, 0x1000, false, true, true, 1, .little, fun _ => 1, by decide⟩

/-- The node has the line, and memory holds 5. -/
def holding (line : CacheLine) : Sys 1 := ⟨fun _ => ⟨line, true⟩, fun _ => 5⟩

end LibSystemCTLM.Chi.AtomicSnoops
