import LibSystemCTLM.Foundation.Endian
import LibSystemCTLM.Foundation.Runs
import Mathlib.Logic.Function.Basic

/-!
# The register API

`regapi_block` in `regapi.h` is an array of registers and a table that says of each of them which bits are
read-only, which are cleared by writing a one, and which are cleared by reading.

An access does what the table says exactly if it does not come to one of two bits: a read returns what is left
after the bits that it clears, and a write clears every bit that a one would clear (`lawful_iff`). So it is for
any sequence of accesses and resets (`runOk_lawful_iff`).

## The model

`T` has `n` bytes. A table carries that its registers lie inside of the array, which `reg_reset` asserts, so that
there is no access behind it. The host is little-endian, which is what `memcpy` makes of a register.

## Honest scope

The columns `rsvd` and `unimp`, which nothing reads, and the debug output are left out.
-/

namespace LibSystemCTLM.RegApi

open Foundation

/-- `regapi_info`. -/
structure Info (n : ℕ) where
  name : Option String := none
  ro : BitVec (8 * n) := 0
  w1c : BitVec (8 * n) := 0
  reset : BitVec (8 * n) := 0
  cor : BitVec (8 * n) := 0
  addr : BitVec 64 := 0
  deriving DecidableEq

/-- The `unsigned int` that an address is made. -/
def regIndex (n : ℕ) (addr : BitVec 64) : ℕ := addr.toNat / n % 2 ^ 32

/-- The entries before the one without a name, or before `R_MAX`. -/
def entries {n : ℕ} (rMax : ℕ) (info : List (Info n)) : List (Info n) := (info.take rMax).takeWhile fun i => i.name.isSome

/-- A table for `R_MAX` registers. -/
structure Table (n rMax : ℕ) where
  info : List (Info n)
  fits : ∀ i ∈ entries rMax info, regIndex n i.addr < rMax

/-- `regs`. -/
abbrev Regs (n rMax : ℕ) := Fin rMax → BitVec (8 * n)

/-- `tlm_response_status`. -/
inductive Response where
  | incomplete | ok | addressError | genericError
  deriving DecidableEq

/-- A transaction: what the register API looks at. -/
structure Trans where
  isRead : Bool
  address : BitVec 64
  data : List (BitVec 8)
  response : Response := .incomplete
  deriving DecidableEq

namespace Table

variable {n rMax : ℕ} (tb : Table n rMax) (regs : Regs n rMax) (tr : Trans)

/-- The entry of an address, and its register. -/
def lookup (addr : BitVec 64) : Option (Info n × Fin rMax) :=
  match h : (entries rMax tb.info).find? fun i => decide (addr = i.addr) with
  | some i => some (i, ⟨regIndex n i.addr, tb.fits i (List.mem_of_find?_eq_some h)⟩)
  | none => none

/-- What a write makes of a register. -/
def written (i : Info n) (reg val : BitVec (8 * n)) : BitVec (8 * n) :=
  (if i.ro ≠ 0 then reg &&& i.ro ||| val &&& ~~~i.ro else val) &&& ~~~i.w1c

/-- `reg_access`: the registers, the value that is returned and the response. -/
def regAccess (val : BitVec (8 * n)) : Regs n rMax × BitVec (8 * n) × Response :=
  match tb.lookup tr.address with
  | none => (regs, 0, .addressError)
  | some (i, k) =>
    let reg := if tr.isRead = true then regs k &&& ~~~i.cor else written i (regs k) val
    (Function.update regs k reg, reg, .ok)

/-- `reg_b_transport`. -/
def regBTransport : Regs n rMax × Trans :=
  if tr.data.length ≠ n then (regs, { tr with response := .genericError })
  else
    let (regs', val, response) := tb.regAccess regs tr (if tr.isRead = true then 0 else leWord n tr.data)
    (regs', { tr with data := if tr.isRead = true then leBytes n val else tr.data, response := response })

/-- `reg_reset_all`. -/
def regResetAll : Regs n rMax := fun k =>
  (((entries rMax tb.info).filter fun i => decide (regIndex n i.addr = k)).getLast?.map Info.reset).getD (regs k)

/-! ### What an access is to do -/

/-- No bit has two attributes. -/
def Disjoint : Prop := ∀ i ∈ entries rMax tb.info, i.ro &&& i.w1c = 0 ∧ i.ro &&& i.cor = 0 ∧ i.w1c &&& i.cor = 0

/-- A read returns the register and clears the bits that are cleared by reading. -/
def ReadOk (i : Info n) (reg : BitVec (8 * n)) (reg' : BitVec (8 * n)) (data : List (BitVec 8)) : Prop :=
  data = leBytes n reg ∧ ∀ b < 8 * n, reg'.getLsbD b = (reg.getLsbD b && !i.cor.getLsbD b)

/-- A write leaves the read-only bits, clears those that a one clears and sets the others. -/
def WriteOk (i : Info n) (reg val reg' : BitVec (8 * n)) : Prop :=
  ∀ b < 8 * n, reg'.getLsbD b =
    if i.ro.getLsbD b = true then reg.getLsbD b
    else if i.w1c.getLsbD b = true then reg.getLsbD b && !val.getLsbD b
    else val.getLsbD b

/-- What an access is to do to the registers and the transaction. -/
def Lawful : Prop :=
  let (regs', tr') := tb.regBTransport regs tr
  if tr.data.length ≠ n then regs' = regs ∧ tr'.response ≠ .ok
  else
    match tb.lookup tr.address with
    | none => regs' = regs ∧ tr'.response ≠ .ok
    | some (i, k) =>
      tr'.response = .ok ∧ (∀ j, j ≠ k → regs' j = regs j) ∧
        if tr.isRead = true then ReadOk i (regs k) (regs' k) tr'.data
        else WriteOk i (regs k) (leWord n tr.data) (regs' k)

/-- What is asked of an access: a register that is read has none of the bits that reading clears, and
a write has a one wherever the register has one that it would clear. -/
def Spares : Prop :=
  tr.data.length = n → ∀ e ∈ tb.lookup tr.address,
    if tr.isRead = true then regs e.2 &&& e.1.cor = 0 else regs e.2 &&& e.1.w1c &&& ~~~leWord n tr.data = 0

instance : Decidable tb.Disjoint := inferInstanceAs (Decidable (∀ i ∈ entries rMax tb.info, _))

instance : Decidable (tb.Spares regs tr) := inferInstanceAs (Decidable (tr.data.length = n → ∀ e ∈ tb.lookup tr.address, _))

/-! ### When it does -/

variable {tb regs tr} {i : Info n} {k : Fin rMax} {reg val : BitVec (8 * n)}

theorem regBTransport_of_lookup (hlen : tr.data.length = n) (h : tb.lookup tr.address = some (i, k)) :
    (tb.regBTransport regs tr).1 k = if tr.isRead = true then regs k &&& ~~~i.cor else written i (regs k) (leWord n tr.data) := by
  simp only [regBTransport, hlen, ne_eq, not_true_eq_false, if_false, regAccess, h, Function.update_self]
  cases tr.isRead <;> rfl

theorem regBTransport_of_ne (h : tr.data.length = n → ∀ i, tb.lookup tr.address ≠ some (i, k)) : (tb.regBTransport regs tr).1 k = regs k := by
  unfold regBTransport regAccess
  split
  · rfl
  · rename_i hlen
    cases hl : tb.lookup tr.address with
    | none => rfl
    | some e =>
      have hk : k ≠ e.2 := fun hk => h (not_not.1 hlen) e.1 (by rw [hl, hk])
      exact Function.update_of_ne hk _ _

/-- An access is to an entry of its address, and to the register of it. -/
theorem lookup_eq_some {addr : BitVec 64} (h : tb.lookup addr = some (i, k)) :
    i ∈ entries rMax tb.info ∧ addr = i.addr ∧ (k : ℕ) = regIndex n addr := by
  unfold lookup at h
  split at h
  · rename_i j hj
    obtain ⟨rfl, rfl⟩ := Prod.mk.inj (Option.some.inj h)
    have haddr : addr = j.addr := of_decide_eq_true (List.find?_some (p := fun i : Info n => decide (addr = i.addr)) hj)
    exact ⟨List.mem_of_find?_eq_some hj, haddr, congrArg (regIndex n) haddr.symm⟩
  · cases h

/-- Every entry has an address that is found. -/
theorem exists_lookup (h : i ∈ entries rMax tb.info) : ∃ e k, tb.lookup i.addr = some (e, k) := by
  unfold lookup
  split
  · exact ⟨_, _, rfl⟩
  · rename_i hnone
    exact absurd (List.find?_eq_none.1 hnone i h) (by simp)

/-- A register that has entries is reset to what the last of them says. -/
theorem regResetAll_of_mem (h : (k : ℕ) ∈ (entries rMax tb.info).map fun i => regIndex n i.addr) :
    ∃ e ∈ entries rMax tb.info, regIndex n e.addr = k ∧ tb.regResetAll regs k = e.reset := by
  obtain ⟨i, hi, hk⟩ := List.mem_map.1 h
  have hne : (entries rMax tb.info).filter (fun i => decide (regIndex n i.addr = k)) ≠ [] :=
    List.ne_nil_of_mem (List.mem_filter.2 ⟨hi, decide_eq_true hk⟩)
  obtain ⟨hmem, hidx⟩ := List.mem_filter.1 (List.getLast_mem hne)
  refine ⟨_, hmem, of_decide_eq_true hidx, ?_⟩
  unfold regResetAll
  rw [List.getLast?_eq_some_getLast hne]
  rfl

theorem zero_getLsbD (b : ℕ) : (0 : BitVec (8 * n)).getLsbD b = false := BitVec.getLsbD_zero

theorem getLsbD_of_and_eq_zero {x y : BitVec (8 * n)} (h : x &&& y = 0) {b : ℕ} (hx : x.getLsbD b = true) : y.getLsbD b = false := by
  have hb := congrArg (·.getLsbD b) h
  simpa only [BitVec.getLsbD_and, hx, Bool.true_and, zero_getLsbD] using hb

theorem getLsbD_and_not (x y : BitVec (8 * n)) {b : ℕ} (hb : b < 8 * n) : (x &&& ~~~y).getLsbD b = (x.getLsbD b && !y.getLsbD b) := by
  simp only [BitVec.getLsbD_and, BitVec.getLsbD_not, hb, decide_true, Bool.true_and]

theorem getLsbD_written (i : Info n) (reg val : BitVec (8 * n)) {b : ℕ} (hb : b < 8 * n) :
    (written i reg val).getLsbD b = ((if i.ro.getLsbD b = true then reg.getLsbD b else val.getLsbD b) && !i.w1c.getLsbD b) := by
  unfold written
  rw [getLsbD_and_not _ _ hb]
  by_cases hro : i.ro = 0
  · rw [if_neg (not_not.2 hro), hro, zero_getLsbD, if_neg Bool.false_ne_true]
  · rw [if_pos hro, BitVec.getLsbD_or, getLsbD_and_not _ _ hb, BitVec.getLsbD_and]
    cases i.ro.getLsbD b with
    | true => simp
    | false => simp

theorem and_not_eq_self {x y : BitVec (8 * n)} : x &&& ~~~y = x ↔ x &&& y = 0 := by
  constructor
  · intro h
    apply BitVec.eq_of_getLsbD_eq
    intro b hb
    have hbit := congrArg (·.getLsbD b) h
    simp only [getLsbD_and_not _ _ hb] at hbit
    rw [BitVec.getLsbD_and, zero_getLsbD]
    revert hbit
    cases x.getLsbD b <;> simp
  · intro h
    apply BitVec.eq_of_getLsbD_eq
    intro b hb
    rw [getLsbD_and_not _ _ hb]
    cases hx : x.getLsbD b with
    | true => simp [getLsbD_of_and_eq_zero h hx]
    | false => simp

/-- The value comes back if there was nothing to clear. -/
theorem readOk_iff : ReadOk i reg (reg &&& ~~~i.cor) (leBytes n (reg &&& ~~~i.cor)) ↔ reg &&& i.cor = 0 := by
  rw [← and_not_eq_self]
  constructor
  · rintro ⟨hdata, -⟩
    rw [← leWord_leBytes n (reg &&& ~~~i.cor), hdata, leWord_leBytes]
  · intro h
    exact ⟨by rw [h], fun b hb => getLsbD_and_not _ _ hb⟩

/-- The bits that a one clears are left alone if they are not there. -/
theorem writeOk_iff (hdis : i.ro &&& i.w1c = 0) : WriteOk i reg val (written i reg val) ↔ reg &&& i.w1c &&& ~~~val = 0 := by
  have hro : ∀ b, i.w1c.getLsbD b = true → i.ro.getLsbD b = false := fun b hw =>
    getLsbD_of_and_eq_zero (by rwa [BitVec.and_comm] at hdis) hw
  constructor
  · intro h
    apply BitVec.eq_of_getLsbD_eq
    intro b hb
    have hbit := h b hb
    rw [getLsbD_written i reg val hb] at hbit
    rw [getLsbD_and_not _ _ hb, BitVec.getLsbD_and, zero_getLsbD]
    cases hw : i.w1c.getLsbD b with
    | false => simp
    | true =>
      rw [hw, hro b hw] at hbit
      simpa using hbit.symm
  · intro h b hb
    rw [getLsbD_written i reg val hb]
    cases hw : i.w1c.getLsbD b with
    | false => simp
    | true =>
      have hbit := congrArg (·.getLsbD b) h
      simp only [getLsbD_and_not _ _ hb, BitVec.getLsbD_and, hw, Bool.and_true, zero_getLsbD] at hbit
      simp [hro b hw, hbit]

/-- What an access does is what the table says exactly if it comes to no bit that it would wrongly clear. -/
theorem lawful_iff (hdis : tb.Disjoint) : tb.Lawful regs tr ↔ tb.Spares regs tr := by
  unfold Lawful Spares regBTransport
  by_cases hlen : tr.data.length = n
  · unfold regAccess
    cases hl : tb.lookup tr.address with
    | none => simp [hlen]
    | some e =>
      obtain ⟨i, k⟩ := e
      have hother : ∀ reg, ∀ j, j ≠ k → Function.update regs k reg j = regs j := fun reg j hj => Function.update_of_ne hj _ _
      cases hr : tr.isRead with
      | true =>
        simp only [hlen, ne_eq, not_true_eq_false, if_false, if_true, true_and, Function.update_self, true_imp_iff, Option.mem_some_iff, forall_eq']
        exact (and_iff_right (hother _)).trans readOk_iff
      | false =>
        simp only [hlen, ne_eq, not_true_eq_false, Bool.false_eq_true, if_false, true_and, Function.update_self, true_imp_iff,
          Option.mem_some_iff, forall_eq']
        exact (and_iff_right (hother _)).trans (writeOk_iff (hdis i (lookup_eq_some hl).1).1)
  · simp [hlen]

variable (tb)

/-- An access, or without one `reg_reset_all`. -/
def step (regs : Regs n rMax) : Option Trans → Option (Regs n rMax)
  | none => some (tb.regResetAll regs)
  | some tr => some (tb.regBTransport regs tr).1

/-- `Lawful`, and nothing is said of a reset. -/
def LawfulStep (regs : Regs n rMax) (tr? : Option Trans) : Prop := ∀ tr ∈ tr?, tb.Lawful regs tr

/-- `Spares`, and nothing is asked of a reset. -/
def SparesStep (regs : Regs n rMax) (tr? : Option Trans) : Prop := ∀ tr ∈ tr?, tb.Spares regs tr

instance (tr? : Option Trans) : Decidable (tb.SparesStep regs tr?) := inferInstanceAs (Decidable (∀ tr ∈ tr?, _))

/-- **The accesses of a sequence do what the table says exactly if none of them comes to a bit that it wrongly clears.** -/
theorem runOk_lawful_iff (hdis : tb.Disjoint) (regs : Regs n rMax) (trs : List (Option Trans)) :
    RunOk tb.step tb.LawfulStep regs trs ↔ RunOk tb.step tb.SparesStep regs trs := by
  refine runOk_congr (fun _ _ => trivial) (fun {regs tr?} _ => ?_) (trivial : (fun _ => True) regs)
  exact forall₂_congr fun tr _ => lawful_iff hdis

end Table

/-- A status register as `CH1SR` is one, and a counter that reading clears. -/
def statusTable : Table 4 2 where
  info :=
    [{ name := some "STATUS", ro := 0xffff0001, w1c := 0xe8, reset := 0x28, addr := 0 },
      { name := some "COUNT", cor := 0xff, reset := 7, addr := 4 }]
  fits := by decide

/-- Both bits that are set are written with a one. -/
theorem statusTable_lawful :
    RunOk statusTable.step statusTable.LawfulStep (fun _ => 0) [none, some { isRead := false, address := 0, data := leBytes 4 0x28 }] :=
  (statusTable.runOk_lawful_iff (by decide) _ _).2 (by decide)

/-- A zero that is written clears both bits as well, and the counter reads as zero. -/
theorem statusTable_not_lawful :
    statusTable.Disjoint ∧
      (∃ regs, ¬statusTable.Lawful regs { isRead := false, address := 0, data := leBytes 4 0 }) ∧
      ∃ regs, ¬statusTable.Lawful regs { isRead := true, address := 4, data := leBytes 4 0 } := by
  have hdis : statusTable.Disjoint := by decide
  refine ⟨hdis, ⟨statusTable.regResetAll fun _ => 0, ?_⟩, ⟨statusTable.regResetAll fun _ => 0, ?_⟩⟩
  · rw [Table.lawful_iff hdis]
    decide
  · rw [Table.lawful_iff hdis]
    decide

end LibSystemCTLM.RegApi
