import LibSystemCTLM.Foundation.Runs
import LibSystemCTLM.Foundation.ByteStrings
import LibSystemCTLM.Tlm.Payload
import Mathlib.Algebra.Order.Ring.Nat

/-!
# The CDMA

`xilinx_cdma` copies memory (`xilinx-cdma.h`): software writes a source, a destination and a number of bytes, and a
thread moves pieces of at most 64 bytes until there are none left. Each piece is read and written by an access that may
wait, and between them come the accesses of software to the registers.

## The model

The thread is where it waits: for the event of a new number of bytes, or in one of its two accesses, with what it has in
its local variables. `fire` is the event, which is lost on a thread that does not wait for it. `jobs` lists what was asked
for, in the order of the writes of `R_BTT`.

## What is proved

A driver that polls `SR_IDLE` before it programs the engine finds all its copies done, one after the other, where it finds
that bit (`copied_of_reach`): the pieces of a copy make a copy even if its ends overlap, as long as the destination does
not start within the source behind its start. And the engine always gets there.

## Honest scope

The memory answers each access, and nothing but the engine changes it. What the engine is asked for while it is busy is
left out: its next piece starts from the new values, of which some are written back by the last one.
-/

namespace LibSystemCTLM.Cdma

open Foundation Tlm

/-! ### The engine -/

/-- `R_MAX`. -/
abbrev rMax : ℕ := 11

/-- An index of `regs`, under its name below. -/
abbrev Reg := Fin rMax

abbrev rCr : Reg := 0
abbrev rSr : Reg := 1
abbrev rSa : Reg := 6
abbrev rSaMsb : Reg := 7
abbrev rDa : Reg := 8
abbrev rDaMsb : Reg := 9
abbrev rBtt : Reg := 10

/-- `CR_RESET`. -/
def crReset : BitVec 32 := 1#32 <<< 2

/-- `SR_IDLE`. -/
def srIdle : BitVec 32 := 1#32 <<< 1

/-- `SR_IOC_IRQ`. -/
def srIocIrq : BitVec 32 := 1#32 <<< 12

/-- `sizeof buf`. -/
def bufSize : ℕ := 64

/-- Where `do_dma_copy` is, with `sa`, `da` and `tlen` or the bytes in `buf`. -/
inductive Thread where
  | waiting
  | read (sa da : Addr) (tlen : ℕ)
  | write (sa da : Addr) (buf : List Byte)
  | written (sa da : Addr) (tlen : ℕ)
  deriving DecidableEq

/-- A copy that is asked for. -/
structure Job where
  sa : Addr
  da : Addr
  btt : ℕ
  deriving DecidableEq

structure State where
  regs : Reg → BitVec 32
  mem : Addr → Byte
  thread : Thread := .waiting
  /-- `ev_dma_copy` is notified. -/
  notified : Bool := false
  jobs : List Job := []

namespace State

variable (s : State)

/-- The source. -/
def sa : Addr := s.regs rSaMsb ++ s.regs rSa

/-- The destination. -/
def da : Addr := s.regs rDaMsb ++ s.regs rDa

/-- What is left of a copy. -/
def btt : ℕ := (s.regs rBtt).toNat

/-- A register without side effects. -/
def setReg (r : Reg) (v : BitVec 32) : State := { s with regs := Function.update s.regs r v }

/-- The write of `b_transport`. -/
def write (r : Reg) (v : BitVec 32) : State :=
  if r = rCr then s.setReg rCr (v &&& ~~~crReset)
  else if r = rSr then s.setReg rSr (s.regs rSr &&& ~~~(v &&& srIocIrq))
  else if r = rBtt then
    { (s.setReg rBtt v).setReg rSr (s.regs rSr &&& ~~~srIdle) with notified := true, jobs := s.jobs ++ [⟨s.sa, s.da, v.toNat⟩] }
  else s.setReg r v

/-- The thread behind its wait: the addresses and the length of a piece. -/
def start : State := { s with thread := .read s.sa s.da (min s.btt bufSize) }

/-- The registers behind a piece. -/
def advance (sa da : Addr) (tlen : ℕ) : State :=
  let s := s.setReg rBtt (s.regs rBtt - BitVec.ofNat 32 tlen)
  let s := s.setReg rSa ((sa + BitVec.ofNat 64 tlen).setWidth 32)
  let s := s.setReg rSaMsb (((sa + BitVec.ofNat 64 tlen) >>> 32).setWidth 32)
  let s := s.setReg rDa ((da + BitVec.ofNat 64 tlen).setWidth 32)
  s.setReg rDaMsb (((da + BitVec.ofNat 64 tlen) >>> 32).setWidth 32)

/-- The end of a turn of `do_dma_copy`: the copy is done and the thread waits, or the next piece is started. -/
def finish : State :=
  if s.regs rBtt = 0 then { s.setReg rSr (s.regs rSr ||| (srIdle ||| srIocIrq)) with thread := .waiting } else s.start

/-- A step of `do_dma_copy`. -/
def copy : Option State :=
  match s.thread with
  | .waiting => none
  | .read sa da tlen => some { s with thread := .write sa da (loadBytes s.mem sa tlen) }
  | .write sa da buf => some { s with mem := storeBytes s.mem da buf, thread := .written sa da buf.length }
  | .written sa da tlen => some (s.advance sa da tlen).finish

/-- The event, at the end of the turn in which it was notified. -/
def fire : Option State :=
  if s.notified = true then
    if s.thread = .waiting then some { s with notified := false }.start else some { s with notified := false }
  else none

end State

/-- What `b_transport` looks at of a payload, with the word at its data pointer. -/
structure Access where
  command : Command
  address : Addr
  dataLength : ℕ
  byteEnable : Bool
  word : BitVec 32

/-- `b_transport`, with the word and the status it leaves in the payload; `none` is an index outside of `regs`. -/
def bTransport (s : State) (a : Access) : Option (State × BitVec 32 × Response) :=
  if a.dataLength ≠ 4 ∨ a.byteEnable = true then some (s, a.word, .error)
  else
    match a.command with
    | .ignore => some (s, a.word, .ok)
    | .read => if h : (a.address >>> 2).toNat < rMax then some (s, s.regs ⟨_, h⟩, .ok) else none
    | .write => if h : (a.address >>> 2).toNat < rMax then some (s.write ⟨_, h⟩ a.word, a.word, .ok) else none

/-- What happens. -/
inductive Event where
  | access (a : Access)
  | fire
  | copy

/-- One step of the engine. -/
def step (s : State) : Event → Option State
  | .access a => (bTransport s a).map (·.1)
  | .fire => s.fire
  | .copy => s.copy

/-- Before anything is asked for; the registers have any values but the number of bytes. -/
def init (regs : Reg → BitVec 32) (mem : Addr → Byte) : State := { regs := Function.update regs rBtt 0, mem := mem }

/-! ### What is asked of it -/

/-- A copy as a whole: all bytes are read before the first one is written. -/
def Job.move (mem : Addr → Byte) (j : Job) : Addr → Byte := storeBytes mem j.da (loadBytes mem j.sa j.btt)

/-- The destination does not start within the source behind its start, or the copy is one piece. -/
def Job.Clear (j : Job) : Prop := j.da = j.sa ∨ j.btt ≤ (j.da - j.sa).toNat ∨ j.btt ≤ bufSize

instance (j : Job) : Decidable j.Clear := inferInstanceAs (Decidable (_ ∨ _ ∨ _))

/-- `SR_IDLE` is found set. -/
def State.idle (s : State) : Bool := (s.regs rSr).getLsbD 1

/-- Or nothing was asked for yet. -/
def State.Quiet (s : State) : Prop := s.jobs = [] ∨ s.idle = true

instance (s : State) : Decidable s.Quiet := inferInstanceAs (Decidable (_ ∨ _))

/-- A driver writes the registers of a copy when the engine is idle, and asks for copies that are clear. -/
def Polled (s : State) : Event → Prop
  | .access a =>
    a.command = .write → a.dataLength = 4 → a.byteEnable = false →
      ((a.address >>> 2).toNat ∈ [6, 7, 8, 9, 10] → s.Quiet) ∧
        ((a.address >>> 2).toNat = 10 → Job.Clear ⟨s.sa, s.da, a.word.toNat⟩)
  | _ => True

variable {s s' : State} {mem mem₀ : Addr → Byte} {j : Job} {k t : ℕ} {r : Reg} {v : BitVec 32}

/-! ### Pieces of a copy -/

/-- What the next piece reads is not written by those before it. -/
theorem loadBytes_next (h : j.Clear) (hk : k = 0 ∨ bufSize ≤ k) (hkt : k + t ≤ j.btt) (hn : j.btt < 2 ^ 32) :
    loadBytes (storeBytes mem j.da (loadBytes mem j.sa k)) (j.sa + BitVec.ofNat 64 k) t = loadBytes mem (j.sa + BitVec.ofNat 64 k) t := by
  refine loadBytes_storeBytes_of_le mem fun i hi => ?_
  rw [length_loadBytes]
  have hda := j.da.isLt
  have hsa := j.sa.isLt
  rw [Job.Clear, bufSize] at h
  rw [bufSize] at hk
  have hat : (j.sa + BitVec.ofNat 64 k + BitVec.ofNat 64 i - j.da).toNat = (k + i + 2 ^ 64 - (j.da - j.sa).toNat) % 2 ^ 64 := by
    bv_omega
  rw [hat]
  have hd := (j.da - j.sa).isLt
  obtain h | h | h := h
  · have hzero : (j.da - j.sa).toNat = 0 := by rw [h, sub_self]; rfl
    omega
  · omega
  · omega

theorem storeBytes_next (h : j.Clear) (hk : k = 0 ∨ bufSize ≤ k) (hkt : k + t ≤ j.btt) (hn : j.btt < 2 ^ 32) :
    storeBytes (storeBytes mem j.da (loadBytes mem j.sa k)) (j.da + BitVec.ofNat 64 k)
        (loadBytes (storeBytes mem j.da (loadBytes mem j.sa k)) (j.sa + BitVec.ofNat 64 k) t) =
      storeBytes mem j.da (loadBytes mem j.sa (k + t)) := by
  rw [loadBytes_next h hk hkt hn, storeBytes_loadBytes_add _ _ _ _ (by omega)]

/-! ### Registers -/

@[simp] theorem State.setReg_regs_self : (s.setReg r v).regs r = v := Function.update_self _ _ _

theorem State.setReg_regs_of_ne {r' : Reg} (h : r' ≠ r) : (s.setReg r v).regs r' = s.regs r' := Function.update_of_ne h _ _

theorem append_split (a : Addr) : (a >>> 32).setWidth 32 ++ a.setWidth 32 = a := by
  apply BitVec.eq_of_getLsbD_eq
  intro i hi
  rw [BitVec.getLsbD_append]
  split
  next h => simp [h]
  next h => simp [show i - 32 < 32 by omega, show 32 + (i - 32) = i by omega]

/-- The engine is at byte `k` of a copy. -/
structure Registers (s : State) (j : Job) (k : ℕ) : Prop where
  sa : s.sa = j.sa + BitVec.ofNat 64 k
  da : s.da = j.da + BitVec.ofNat 64 k
  btt : s.btt = j.btt - k
  idle : s.idle = false

/-- The registers of a copy are not written. -/
theorem Registers.congr (h : Registers s j k) (hregs : ∀ r ∈ [rSa, rSaMsb, rDa, rDaMsb, rBtt], s'.regs r = s.regs r)
    (hidle : s'.idle = s.idle) : Registers s' j k := by
  have hsa : s'.sa = s.sa := by rw [State.sa, State.sa, hregs rSa (by decide), hregs rSaMsb (by decide)]
  have hda : s'.da = s.da := by rw [State.da, State.da, hregs rDa (by decide), hregs rDaMsb (by decide)]
  have hbtt : s'.btt = s.btt := by rw [State.btt, State.btt, hregs rBtt (by decide)]
  exact ⟨hsa.trans h.sa, hda.trans h.da, hbtt.trans h.btt, hidle.trans h.idle⟩

theorem Registers.advance (h : Registers s j k) (ht : t ≤ j.btt - k) :
    Registers (s.advance (j.sa + BitVec.ofNat 64 k) (j.da + BitVec.ofNat 64 k) t) j (k + t) := by
  have hbtt : ((s.regs rBtt) - BitVec.ofNat 32 t).toNat = j.btt - (k + t) := by
    have hleft : (s.regs rBtt).toNat = j.btt - k := h.btt
    rw [BitVec.toNat_sub_of_le]
    · rw [hleft, BitVec.toNat_ofNat, Nat.mod_eq_of_lt (by omega)]
      omega
    · rw [BitVec.le_def, hleft, BitVec.toNat_ofNat, Nat.mod_eq_of_lt (by omega)]
      exact ht
  refine ⟨?_, ?_, hbtt, h.idle⟩
  · exact (append_split _).trans (by rw [BitVec.add_assoc, ← BitVec.ofNat_add])
  · exact (append_split _).trans (by rw [BitVec.add_assoc, ← BitVec.ofNat_add])

/-! ### The invariant -/

/-- Where the engine is in a copy that started on a memory. -/
def Phase (mem : Addr → Byte) (j : Job) (k : ℕ) (s : State) : Prop :=
  match s.thread with
  | .waiting => s.notified = true ∧ k = 0 ∧ s.mem = mem
  | .read sa da tlen =>
    s.notified = false ∧ sa = j.sa + BitVec.ofNat 64 k ∧ da = j.da + BitVec.ofNat 64 k ∧ tlen = min (j.btt - k) bufSize ∧
      s.mem = storeBytes mem j.da (loadBytes mem j.sa k)
  | .write sa da buf =>
    s.notified = false ∧ sa = j.sa + BitVec.ofNat 64 k ∧ da = j.da + BitVec.ofNat 64 k ∧
      buf = loadBytes s.mem (j.sa + BitVec.ofNat 64 k) (min (j.btt - k) bufSize) ∧ s.mem = storeBytes mem j.da (loadBytes mem j.sa k)
  | .written sa da tlen =>
    s.notified = false ∧ sa = j.sa + BitVec.ofNat 64 k ∧ da = j.da + BitVec.ofNat 64 k ∧ tlen = min (j.btt - k) bufSize ∧
      s.mem = storeBytes mem j.da (loadBytes mem j.sa (k + tlen))

/-- Nothing is left to do. -/
structure Done (mem₀ : Addr → Byte) (s : State) : Prop where
  thread : s.thread = .waiting
  notified : s.notified = false
  quiet : s.Quiet
  mem : s.mem = s.jobs.foldl Job.move mem₀

/-- A copy is under way, and those before it are done. -/
structure Busy (mem₀ : Addr → Byte) (s : State) (js : List Job) (j : Job) (k : ℕ) : Prop where
  jobs : s.jobs = js ++ [j]
  clear : j.Clear
  btt_lt : j.btt < 2 ^ 32
  piece : k = 0 ∨ bufSize ≤ k
  le : k ≤ j.btt
  regs : Registers s j k
  phase : Phase (js.foldl Job.move mem₀) j k s

/-- The one or the other. -/
def Inv (mem₀ : Addr → Byte) (s : State) : Prop := Done mem₀ s ∨ ∃ js j k, Busy mem₀ s js j k

theorem Busy.not_quiet {js : List Job} (h : Busy mem₀ s js j k) : ¬ s.Quiet := by
  rintro (hjobs | hidle)
  · rw [h.jobs] at hjobs
    exact List.append_ne_nil_of_right_ne_nil _ (List.cons_ne_nil _ _) hjobs
  · rw [h.regs.idle] at hidle
    exact Bool.false_ne_true hidle

theorem inv_init (regs : Reg → BitVec 32) (mem : Addr → Byte) : Inv mem (init regs mem) := .inl ⟨rfl, rfl, .inl rfl, rfl⟩

/-! ### Accesses to the registers -/

/-- An access changes nothing, or writes a register. -/
theorem bTransport_cases {a : Access} (h : step s (.access a) = some s') (hpolled : Polled s (.access a)) :
    s' = s ∨ ∃ r : Reg, s' = s.write r a.word ∧ (r ∈ [rSa, rSaMsb, rDa, rDaMsb, rBtt] → s.Quiet) ∧
      (r = rBtt → Job.Clear ⟨s.sa, s.da, a.word.toNat⟩) := by
  rw [step, bTransport] at h
  split at h
  · exact .inl (Option.some.inj h).symm
  next hword =>
    obtain ⟨hlen, hbe⟩ := not_or.1 hword
    cases hcommand : a.command with
    | ignore =>
      rw [hcommand] at h
      exact .inl (Option.some.inj h).symm
    | read =>
      rw [hcommand] at h
      dsimp only at h
      split at h
      · exact .inl (Option.some.inj h).symm
      · simp at h
    | write =>
      rw [hcommand] at h
      dsimp only at h
      split at h
      next hlt =>
        obtain ⟨hquiet, hclear⟩ := hpolled hcommand (not_not.1 hlen) (Bool.eq_false_iff.2 hbe)
        refine .inr ⟨⟨_, hlt⟩, (Option.some.inj h).symm, fun hr => hquiet ?_, fun hr => hclear (congrArg Fin.val hr)⟩
        have hval := List.mem_map_of_mem (f := Fin.val) hr
        exact hval
      · simp at h

/-- `SR_IDLE` stays on a write of `R_SR`. -/
theorem getLsbD_srWrite (x v : BitVec 32) : (x &&& ~~~(v &&& srIocIrq)).getLsbD 1 = x.getLsbD 1 := by
  have hbit : srIocIrq.getLsbD 1 = false := by decide
  rw [BitVec.getLsbD_and, BitVec.getLsbD_not, BitVec.getLsbD_and, hbit, Bool.and_false, Bool.not_false]
  exact Bool.and_true _

/-- A write of a register that is not one of a copy. -/
theorem write_other (hr : r ∉ [rSa, rSaMsb, rDa, rDaMsb, rBtt]) (v : BitVec 32) :
    (∀ r' ∈ [rSa, rSaMsb, rDa, rDaMsb, rBtt], (s.write r v).regs r' = s.regs r') ∧ (s.write r v).idle = s.idle ∧
      (s.write r v).thread = s.thread ∧ (s.write r v).notified = s.notified ∧ (s.write r v).mem = s.mem ∧ (s.write r v).jobs = s.jobs := by
  have hthere : ∀ r' ∈ [rSa, rSaMsb, rDa, rDaMsb, rBtt], r' ≠ rCr ∧ r' ≠ rSr ∧ r' ≠ r := fun r' hr' =>
    ⟨ne_of_mem_of_not_mem hr' (by decide), ne_of_mem_of_not_mem hr' (by decide), ne_of_mem_of_not_mem hr' hr⟩
  rw [State.write]
  split
  next hcr =>
    refine ⟨fun r' hr' => State.setReg_regs_of_ne (hthere r' hr').1, ?_, rfl, rfl, rfl, rfl⟩
    exact congrArg (BitVec.getLsbD · 1) (State.setReg_regs_of_ne (by decide))
  split
  next hsr =>
    refine ⟨fun r' hr' => State.setReg_regs_of_ne (hthere r' hr').2.1, ?_, rfl, rfl, rfl, rfl⟩
    exact (congrArg (BitVec.getLsbD · 1) State.setReg_regs_self).trans (getLsbD_srWrite _ _)
  next hsr =>
    rw [if_neg (ne_of_mem_of_not_mem (show rBtt ∈ [rSa, rSaMsb, rDa, rDaMsb, rBtt] by decide) hr).symm]
    refine ⟨fun r' hr' => State.setReg_regs_of_ne (hthere r' hr').2.2, ?_, rfl, rfl, rfl, rfl⟩
    exact congrArg (BitVec.getLsbD · 1) (State.setReg_regs_of_ne (Ne.symm hsr))

theorem write_address (hr : r ∈ [rSa, rSaMsb, rDa, rDaMsb]) (v : BitVec 32) : s.write r v = s.setReg r v := by
  have hne : ∀ r' ∉ [rSa, rSaMsb, rDa, rDaMsb], r ≠ r' := fun r' hr' => ne_of_mem_of_not_mem hr hr'
  rw [State.write, if_neg (hne _ (by decide)), if_neg (hne _ (by decide)), if_neg (hne _ (by decide))]

/-- A write of the number of bytes starts a copy. -/
theorem busy_write (h : Done mem₀ s) (hclear : Job.Clear ⟨s.sa, s.da, v.toNat⟩) : Busy mem₀ (s.write rBtt v) s.jobs ⟨s.sa, s.da, v.toNat⟩ 0 := by
  rw [State.write, if_neg (by decide), if_neg (by decide), if_pos rfl]
  refine ⟨rfl, hclear, v.isLt, .inl rfl, Nat.zero_le _, ⟨?_, ?_, ?_, ?_⟩, ?_⟩
  · exact (BitVec.add_zero _).symm
  · exact (BitVec.add_zero _).symm
  · rfl
  · have hbit : srIdle.getLsbD 1 = true := by decide
    refine (congrArg (BitVec.getLsbD · 1) State.setReg_regs_self).trans ?_
    show (s.regs rSr &&& ~~~srIdle).getLsbD 1 = false
    rw [BitVec.getLsbD_and, BitVec.getLsbD_not, hbit, Bool.not_true, Bool.and_false, Bool.and_false]
  · have hphase : Phase (s.jobs.foldl Job.move mem₀) ⟨s.sa, s.da, v.toNat⟩ 0 { s with notified := true } := by
      rw [Phase, h.thread]
      exact ⟨rfl, rfl, h.mem⟩
    exact hphase

theorem inv_access {a : Access} (h : Inv mem₀ s) (hpolled : Polled s (.access a)) (hs : step s (.access a) = some s') : Inv mem₀ s' := by
  obtain rfl | ⟨r, rfl, hquiet, hclear⟩ := bTransport_cases hs hpolled
  · exact h
  by_cases hr : r ∈ [rSa, rSaMsb, rDa, rDaMsb, rBtt]
  · obtain hdone | ⟨js, j, k, hbusy⟩ := h
    · by_cases hbtt : r = rBtt
      · subst hbtt
        exact .inr ⟨_, _, 0, busy_write hdone (hclear rfl)⟩
      · have haddr : r ∈ [rSa, rSaMsb, rDa, rDaMsb] := by
          simp only [List.mem_cons, List.not_mem_nil, or_false] at hr ⊢
          tauto
        rw [write_address haddr]
        have hsr : rSr ≠ r := (ne_of_mem_of_not_mem haddr (by decide)).symm
        refine .inl ⟨hdone.thread, hdone.notified, hdone.quiet.imp_right fun hidle => ?_, hdone.mem⟩
        exact (congrArg (BitVec.getLsbD · 1) (State.setReg_regs_of_ne hsr)).trans hidle
    · exact absurd (hquiet hr) hbusy.not_quiet
  · obtain ⟨hregs, hidle, hthread, hnotified, hmem, hjobs⟩ := write_other (s := s) hr a.word
    obtain hdone | ⟨js, j, k, hbusy⟩ := h
    · refine .inl ⟨hthread.trans hdone.thread, hnotified.trans hdone.notified, ?_, by rw [hmem, hjobs, hdone.mem]⟩
      rw [State.Quiet, hjobs, hidle]
      exact hdone.quiet
    · refine .inr ⟨js, j, k, hjobs.trans hbusy.jobs, hbusy.clear, hbusy.btt_lt, hbusy.piece, hbusy.le, hbusy.regs.congr hregs hidle, ?_⟩
      have hphase := hbusy.phase
      simp only [Phase, hthread, hnotified, hmem] at hphase ⊢
      exact hphase

/-! ### Steps of the engine -/

theorem phase_start (h : Registers s j k) (hnotified : s.notified = false) (hmem : s.mem = storeBytes mem j.da (loadBytes mem j.sa k)) :
    Phase mem j k s.start :=
  ⟨hnotified, h.sa, h.da, congrArg (min · bufSize) h.btt, hmem⟩

theorem inv_fire (h : Inv mem₀ s) (hs : step s .fire = some s') : Inv mem₀ s' := by
  rw [step, State.fire] at hs
  split at hs
  next hnotified =>
    obtain hdone | ⟨js, j, k, hbusy⟩ := h
    · rw [hdone.notified] at hnotified
      exact absurd hnotified Bool.false_ne_true
    have hphase := hbusy.phase
    split at hs
    next hwaiting =>
      cases hs
      rw [Phase, hwaiting] at hphase
      obtain ⟨-, rfl, hmem⟩ := hphase
      refine .inr ⟨js, j, 0, hbusy.jobs, hbusy.clear, hbusy.btt_lt, hbusy.piece, hbusy.le, { hbusy.regs with }, ?_⟩
      exact phase_start (s := { s with notified := false }) { hbusy.regs with } rfl hmem
    next hwaiting =>
      rw [Phase] at hphase
      cases hthread : s.thread with
      | waiting => exact absurd hthread hwaiting
      | read sa da tlen | write sa da buf | written sa da tlen =>
        rw [hthread] at hphase
        exact absurd (hnotified.symm.trans hphase.1) (by decide)
  · simp at hs

theorem done_or_busy_finish {js : List Job} (hbusy : Busy mem₀ s js j k) (hnotified : s.notified = false)
    (hmem : s.mem = storeBytes (js.foldl Job.move mem₀) j.da (loadBytes (js.foldl Job.move mem₀) j.sa (k + min (j.btt - k) bufSize))) :
    Inv mem₀ (s.advance (j.sa + BitVec.ofNat 64 k) (j.da + BitVec.ofNat 64 k) (min (j.btt - k) bufSize)).finish := by
  have hle := hbusy.le
  have hregs := hbusy.regs.advance (Nat.min_le_left (j.btt - k) bufSize)
  rw [State.finish]
  split
  next hzero =>
    have hend : k + min (j.btt - k) bufSize = j.btt := by
      have hleft : j.btt - (k + min (j.btt - k) bufSize) = 0 := hregs.btt.symm.trans (congrArg BitVec.toNat hzero)
      omega
    refine .inl ⟨rfl, hnotified, .inr ?_, ?_⟩
    · refine (congrArg (BitVec.getLsbD · 1) State.setReg_regs_self).trans ?_
      have hbit : (srIdle ||| srIocIrq).getLsbD 1 = true := by decide
      rw [BitVec.getLsbD_or, hbit, Bool.or_true]
    · rw [hend] at hmem
      have hjobs : s.jobs.foldl Job.move mem₀ = j.move (js.foldl Job.move mem₀) := by rw [hbusy.jobs, List.foldl_append]; rfl
      exact hmem.trans hjobs.symm
  next hne =>
    have hmore : k + min (j.btt - k) bufSize < j.btt := by
      have hleft : (s.advance (j.sa + BitVec.ofNat 64 k) (j.da + BitVec.ofNat 64 k) (min (j.btt - k) bufSize)).btt ≠ 0 :=
        fun hzero => hne (BitVec.eq_of_toNat_eq hzero)
      rw [hregs.btt] at hleft
      omega
    refine .inr ⟨js, j, k + min (j.btt - k) bufSize, hbusy.jobs, hbusy.clear, hbusy.btt_lt, .inr (by omega), hmore.le, ?_, ?_⟩
    · exact ⟨hregs.sa, hregs.da, hregs.btt, hregs.idle⟩
    · exact phase_start hregs hnotified hmem

theorem inv_copy (h : Inv mem₀ s) (hs : step s .copy = some s') : Inv mem₀ s' := by
  rw [step, State.copy] at hs
  obtain hdone | ⟨js, j, k, hbusy⟩ := h
  · rw [hdone.thread] at hs
    simp at hs
  have hphase := hbusy.phase
  rw [Phase] at hphase
  cases hthread : s.thread with
  | waiting =>
    rw [hthread] at hs
    simp at hs
  | read sa da tlen =>
    rw [hthread] at hs hphase
    obtain ⟨hnotified, rfl, rfl, rfl, hmem⟩ := hphase
    cases hs
    exact .inr ⟨js, j, k, { hbusy with regs := { hbusy.regs with }, phase := ⟨hnotified, rfl, rfl, rfl, hmem⟩ }⟩
  | write sa da buf =>
    rw [hthread] at hs hphase
    obtain ⟨hnotified, rfl, rfl, rfl, hmem⟩ := hphase
    cases hs
    have hle := hbusy.le
    refine .inr ⟨js, j, k, { hbusy with regs := { hbusy.regs with }, phase := ⟨hnotified, rfl, rfl, length_loadBytes _ _ _, ?_⟩ }⟩
    rw [length_loadBytes, hmem]
    exact storeBytes_next hbusy.clear hbusy.piece (by omega) hbusy.btt_lt
  | written sa da tlen =>
    rw [hthread] at hs hphase
    obtain ⟨hnotified, rfl, rfl, rfl, hmem⟩ := hphase
    cases hs
    exact done_or_busy_finish hbusy hnotified hmem

theorem inv_step {e : Event} (h : Inv mem₀ s) (hpolled : Polled s e) (hs : step s e = some s') : Inv mem₀ s' := by
  cases e with
  | access a => exact inv_access h hpolled hs
  | fire => exact inv_fire h hs
  | copy => exact inv_copy h hs

/-! ### The engine gets there -/

/-- The steps that are left of a copy. -/
def left (s : State) : ℕ :=
  let pieces := (s.btt + bufSize - 1) / bufSize
  match s.thread with
  | .waiting => if s.notified = true then 3 * pieces + 4 else 0
  | .read _ _ _ => 3 * pieces + 3
  | .write _ _ _ => 3 * pieces + 2
  | .written _ _ _ => 3 * pieces + 1

/-- A step that is left to the engine. -/
def Own (e : Event) : Prop := e = .fire ∨ e = .copy

theorem left_finish (s : State) (t : ℕ) (hnotified : s.notified = false) (ht : t = min s.btt bufSize) (sa da : Addr) :
    left (s.advance sa da t).finish < 3 * ((s.btt + bufSize - 1) / bufSize) + 1 := by
  have hbtt : (s.advance sa da t).btt = s.btt - t := by
    have hlt := (s.regs rBtt).isLt
    refine (BitVec.toNat_sub_of_le ?_).trans ?_
    · rw [BitVec.le_def, BitVec.toNat_ofNat]
      exact (Nat.mod_le _ _).trans (ht ▸ Nat.min_le_left _ _)
    · rw [BitVec.toNat_ofNat, Nat.mod_eq_of_lt (by rw [ht, State.btt]; omega)]
      rfl
  rw [State.finish]
  split
  · have hwaiting : left { (s.advance sa da t).setReg rSr ((s.advance sa da t).regs rSr ||| (srIdle ||| srIocIrq)) with thread := .waiting } = 0 :=
      if_neg fun h => Bool.false_ne_true (hnotified.symm.trans h)
    rw [hwaiting]
    exact Nat.succ_pos _
  next hne =>
    have hmore : s.btt - t ≠ 0 := fun hzero => hne (BitVec.eq_of_toNat_eq (hbtt.trans hzero))
    show 3 * (((s.advance sa da t).btt + bufSize - 1) / bufSize) + 3 < _
    rw [hbtt, ht]
    rw [ht] at hmore
    simp only [bufSize] at hmore ⊢
    omega

/-- As long as a copy is under way the engine has a step, which brings it nearer to its end. -/
theorem exists_step {js : List Job} (h : Busy mem₀ s js j k) :
    ∃ e s', Own e ∧ step s e = some s' ∧ s'.jobs = s.jobs ∧ left s' < left s := by
  have hphase := h.phase
  rw [Phase] at hphase
  cases hthread : s.thread with
  | waiting =>
    rw [hthread] at hphase
    refine ⟨.fire, { s with notified := false }.start, .inl rfl, by rw [step, State.fire, if_pos hphase.1, if_pos hthread], rfl, ?_⟩
    simp only [left, hthread, hphase.1, if_true]
    exact Nat.lt_succ_self _
  | read sa da tlen =>
    refine ⟨.copy, { s with thread := .write sa da (loadBytes s.mem sa tlen) }, .inr rfl, by rw [step, State.copy, hthread], rfl, ?_⟩
    simp only [left, hthread]
    exact Nat.lt_succ_self _
  | write sa da buf =>
    refine ⟨.copy, { s with mem := storeBytes s.mem da buf, thread := .written sa da buf.length }, .inr rfl,
      by rw [step, State.copy, hthread], rfl, ?_⟩
    simp only [left, hthread]
    exact Nat.lt_succ_self _
  | written sa da tlen =>
    rw [hthread] at hphase
    refine ⟨.copy, (s.advance sa da tlen).finish, .inr rfl, by rw [step, State.copy, hthread], ?_, ?_⟩
    · rw [State.finish]
      split <;> rfl
    · simp only [left, hthread]
      refine left_finish s tlen hphase.1 ?_ sa da
      rw [hphase.2.2.2.1, h.regs.btt]

/-- **What the engine is asked for is done**: in every run of a driver that polls, the memory has all copies where `SR_IDLE` is
found, and the engine can always get there by its own steps. -/
theorem copied_of_reach {regs : Reg → BitVec 32} {mem : Addr → Byte} (h : Reach step Polled (init regs mem) s) :
    (s.idle = true → s.mem = s.jobs.foldl Job.move mem) ∧
      ∃ es, (∀ e ∈ es, Own e) ∧ ∃ s', run step s es = some s' ∧ s'.jobs = s.jobs ∧ s'.Quiet ∧ s'.mem = s.jobs.foldl Job.move mem := by
  have hinv : Inv mem s := h.invariant (inv_init regs mem) inv_step
  constructor
  · intro hidle
    obtain hdone | ⟨js, j, k, hbusy⟩ := hinv
    · exact hdone.mem
    · exact absurd (.inr hidle) hbusy.not_quiet
  · have hnext : ∀ u, Inv mem u ∧ u.jobs = s.jobs → ¬ Done mem u →
        ∃ e u', Own e ∧ step u e = some u' ∧ (Inv mem u' ∧ u'.jobs = s.jobs) ∧ left u' < left u := by
      rintro u ⟨hu, hjobs⟩ hnot
      obtain hdone | ⟨js, j, k, hbusy⟩ := hu
      · exact absurd hdone hnot
      obtain ⟨e, u', he, hstep, hjobs', hlt⟩ := exists_step hbusy
      refine ⟨e, u', he, hstep, ⟨inv_step (.inr ⟨js, j, k, hbusy⟩) ?_ hstep, hjobs'.trans hjobs⟩, hlt⟩
      obtain rfl | rfl := he
      · trivial
      · trivial
    obtain ⟨es, hes, s', hrun, ⟨-, hjobs⟩, hdone⟩ := exists_run_of_measure left hnext ⟨hinv, rfl⟩
    exact ⟨es, hes, s', hrun, hjobs, hdone.quiet, hjobs ▸ hdone.mem⟩

/-- A write of a register. -/
def regWrite (offset : Addr) (v : BitVec 32) : Event := .access ⟨.write, offset, 4, false, v⟩

/-- A copy of 65 bytes, to the address next to them. -/
def twoPieces : List Event := [regWrite 0x20 65, regWrite 0x28 65, .fire, .copy, .copy, .copy, .copy, .copy, .copy]

instance (s : State) (e : Event) : Decidable (Polled s e) := by
  unfold Polled
  cases e <;> infer_instance

theorem copied_twoPieces : ∃ s, run step (init 0 fun a => a.setWidth 8) twoPieces = some s ∧ s.idle = true ∧ s.mem 66 = 1 := by
  have hok : RunOk step Polled (init 0 fun a => a.setWidth 8) twoPieces := by decide
  have hrun : ∃ s, run step (init 0 fun a => a.setWidth 8) twoPieces = some s ∧ s.idle = true ∧ s.jobs = [⟨0, 65, 65⟩] := ⟨_, rfl, rfl, rfl⟩
  obtain ⟨s, hs, hidle, hjobs⟩ := hrun
  refine ⟨s, hs, hidle, ?_⟩
  rw [(copied_of_reach (Reach.refl.of_run hok hs)).1 hidle, hjobs]
  rfl

end LibSystemCTLM.Cdma
