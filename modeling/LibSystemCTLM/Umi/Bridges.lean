import LibSystemCTLM.Foundation.Runs
import LibSystemCTLM.Tlm.Payload
import Mathlib.Algebra.Order.Ring.Nat
import Mathlib.Data.BitVec

/-!
# `tlm2umi_bridge` and `umi2tlm_bridge`

TLM accesses between two bridges over a pair of UMI channels: the one cuts an access in words of the bus and sends a request
for each (`tlm2umi-bridge.h`), the other makes an access to its target of each request and sends a response
(`umi2tlm-bridge.h`).

## The model

Both are threads on one clock. At an edge each of them sees the signals as they were before it, and what it writes is seen at
the next one. The target returns whenever it likes between two edges. `log` lists what the target was asked for since the
access in progress started, each with the bytes it answered.

The command word of UMI is packed and unpacked by code that is not here; `Faithful` is what the bridges need of it.

## What is proved

Whatever the target takes for its accesses, each access of the one side is made of accesses of the other side that have each
of its bytes once, at its address, and there is one response for a request, which is taken before the next request is
(`umi_round_trip`).

## Honest scope

Byte enables and the streaming width are not looked at by the bridges, and the status of the target is not sent back. A call
that waits for the mutex of another one has raised `resp_ready`, whatever that one does.
-/

namespace LibSystemCTLM.Umi

open Foundation Tlm

/-! ### Commands -/

/-- The opcodes in use. -/
inductive Opc where
  | reqRead | reqWrite | reqPosted | respRead | respWrite
  deriving DecidableEq

/-- `umi_fields`. -/
structure Fields where
  opc : Opc
  size : ℕ
  len : ℕ
  eof : Bool
  eom : Bool
  deriving DecidableEq

/-- `umi_fields::pack` and `umi_fields::unpack`. -/
structure Codec where
  pack : Fields → BitVec 32
  unpack : BitVec 32 → Fields

/-- Fields that have room are unpacked as they were packed. -/
def Codec.Faithful (c : Codec) : Prop := ∀ f : Fields, f.size < 8 → f.len < 256 → c.unpack (c.pack f) = f

/-- `f.size` for a number of bytes. -/
def sizeOf (tlen : ℕ) : ℕ :=
  match tlen with
  | 2 => 1
  | 4 => 2
  | 8 => 3
  | 16 => 4
  | 32 => 5
  | 64 => 6
  | 128 => 7
  | _ => 0

/-- `f.len`: zero for a number of bytes that has a size, one less than the number otherwise. -/
def lenOf (tlen : ℕ) : ℕ :=
  match tlen with
  | 2 | 4 | 8 | 16 | 32 | 64 | 128 => 0
  | _ => tlen - 1

/-- `nbytes`. -/
def Fields.nbytes (f : Fields) : ℕ := (f.len + 1) <<< f.size

/-- The width of the data, what `eom` holds in the fields of a request, where nothing is stored, and the codec. -/
structure Config where
  bytes : ℕ
  eom : Bool
  codec : Codec
  bytes_pos : 0 < bytes
  bytes_le : bytes ≤ 256

/-! ### Signals and threads -/

/-- What goes with a request or a response. -/
structure Packet where
  cmd : BitVec 32 := 0
  srcaddr : Addr := 0
  dstaddr : Addr := 0
  data : ℕ → Byte := fun _ => 0

/-- A UMI port. -/
structure Port where
  valid : Bool := false
  ready : Bool := false
  packet : Packet := {}

/-- What `b_transport` of `tlm2umi_bridge` is called with, at least one byte. -/
structure Transport where
  read : Bool
  address : Addr
  len : ℕ
  data : ℕ → Byte
  srcaddr : Addr
  len_pos : 0 < len

/-- Where `b_transport` is, with `pos` and the buffer. -/
inductive Initiator where
  | idle
  | requesting (p : Transport) (pos : ℕ) (buf : ℕ → Byte)
  | waiting (p : Transport) (pos : ℕ) (buf : ℕ → Byte)
  | finishing (p : Transport) (buf : ℕ → Byte)

/-- An access of `umi2tlm_bridge` to its target, with the contents of its buffer. -/
structure Access where
  read : Bool
  address : Addr
  len : ℕ
  data : ℕ → Byte
  masterId : Addr

/-- A response with what comes behind it: the fields, `sa`, `da`, `pos`, the buffer and the lanes. -/
structure Response where
  f : Fields
  sa : Addr
  da : Addr
  pos : ℕ
  data : ℕ → Byte
  lanes : ℕ → Byte

/-- Where `umi_thread` is. -/
inductive Target where
  | listening
  | serving (r : Response) (a : Access)
  | answering (r : Response)
  | responding (r : Response)
  | closing (r : Response)

/-- What the target did: an access, and the buffer behind it. -/
abbrev Served := Access × (ℕ → Byte)

/-- A call that has returned, with its buffer and what the target did for it. -/
structure Returned where
  p : Transport
  buf : ℕ → Byte
  log : List Served

structure State where
  req : Port := { ready := true }
  resp : Port := {}
  ini : Initiator := .idle
  tgt : Target := .listening
  /-- The buffer of `umi2tlm_bridge`. -/
  buffer : ℕ → Byte := fun _ => 0
  log : List Served := []
  returned : List Returned := []
  /-- Requests made and accepted, responses sent and taken. -/
  asked : ℕ := 0
  accepted : ℕ := 0
  sent : ℕ := 0
  taken : ℕ := 0

/-- What happens: an edge of the clock, with the caller that has the mutex next, if any, and whether another one comes, or the
return of the target. -/
inductive Event where
  | edge (caller : Option Transport) (other : Bool)
  | served (data : ℕ → Byte)

variable (cfg : Config)

/-! ### `tlm2umi_bridge` -/

/-- `tlen`. -/
def tlen (p : Transport) (pos : ℕ) : ℕ := min cfg.bytes (p.len - pos)

/-- `f`. -/
def fields (p : Transport) (pos : ℕ) : Fields where
  opc := if p.read = true then .reqRead else .reqWrite
  size := sizeOf (tlen cfg p pos)
  len := lenOf (tlen cfg p pos)
  eof := true
  eom := cfg.eom

/-- A request. -/
def request (p : Transport) (pos : ℕ) (buf : ℕ → Byte) : Packet where
  cmd := cfg.codec.pack (fields cfg p pos)
  srcaddr := p.srcaddr + BitVec.ofNat 64 pos
  dstaddr := p.address + BitVec.ofNat 64 pos
  data := fun i => if p.read = false ∧ i < tlen cfg p pos then buf (pos + i) else 0

/-- What the signals are behind the top of the loop. -/
def State.ask (s : State) (p : Transport) (pos : ℕ) (buf : ℕ → Byte) : State :=
  { s with
    req := { s.req with valid := true, packet := request cfg p pos buf }
    resp := { s.resp with ready := true }
    ini := .requesting p pos buf
    asked := s.asked + 1 }

/-- `sc_bv2buf`. -/
def bv2buf (buf : ℕ → Byte) (pos : ℕ) (lanes : ℕ → Byte) (n : ℕ) : ℕ → Byte := fun k => if pos ≤ k ∧ k < pos + n then lanes (k - pos) else buf k

/-- `b_transport` at an edge. -/
def State.initiator (s : State) (caller : Option Transport) : State :=
  match s.ini with
  | .idle =>
    match caller with
    | some p => s.ask cfg p 0 p.data
    | none => s
  | .requesting p pos buf => if s.req.ready = true then { s with req := { s.req with valid := false }, ini := .waiting p pos buf } else s
  | .waiting p pos buf =>
    if s.resp.valid = true then
      let buf := if p.read = true then bv2buf buf pos s.resp.packet.data (tlen cfg p pos) else buf
      let s := { s with taken := s.taken + 1 }
      if pos + tlen cfg p pos < p.len then s.ask cfg p (pos + tlen cfg p pos) buf
      else { s with resp := { s.resp with ready := false }, ini := .finishing p buf }
    else s
  | .finishing p buf =>
    let s := { s with ini := .idle, log := [], returned := s.returned ++ [⟨p, buf, s.log⟩] }
    match caller with
    | some p => s.ask cfg p 0 p.data
    | none => s

/-! ### `umi2tlm_bridge` -/

/-- The top of `umi_thread` with a request; `none` is an assertion. -/
def accept (q : Packet) (buffer : ℕ → Byte) : Option Target :=
  let f := cfg.codec.unpack q.cmd
  let r : Response := ⟨f, q.srcaddr, q.dstaddr, 0, buffer, q.data⟩
  if 1024 < f.nbytes then none
  else
    match f.opc with
    | .reqRead => some (.serving r ⟨true, q.dstaddr, f.nbytes, buffer, q.srcaddr⟩)
    | .reqWrite | .reqPosted => some (.serving r ⟨false, q.dstaddr, f.nbytes, fun i => if i < f.nbytes then q.data i else buffer i, q.srcaddr⟩)
    | .respRead | .respWrite => none

/-- The length of a response of a read. -/
def respLen (r : Response) : ℕ := min cfg.bytes (r.f.nbytes - r.pos)

/-- `send_resp` with the fields of a response, up to its first wait. -/
def sendResp (resp : Port) (r : Response) : Port × Response :=
  match r.f.opc with
  | .reqRead =>
    let lanes : ℕ → Byte := fun i => if i < respLen cfg r then r.data (r.pos + i) else r.lanes i
    let f : Fields := ⟨.respRead, 0, respLen cfg r - 1, true, decide (r.pos + respLen cfg r = r.f.nbytes)⟩
    ({ resp with valid := true, packet := ⟨cfg.codec.pack f, r.da, r.sa, lanes⟩ }, { r with lanes := lanes })
  | _ =>
    let f : Fields := { r.f with opc := .respWrite, eom := true }
    ({ resp with valid := true, packet := { resp.packet with cmd := cfg.codec.pack f, srcaddr := r.da, dstaddr := r.sa } }, r)

/-- `umi_thread` at an edge, from the signals before it. -/
def State.target (s : State) (old : State) : Option State :=
  match old.tgt with
  | .listening =>
    if old.req.valid = true then (accept cfg old.req.packet old.buffer).map fun t => { s with tgt := t, accepted := s.accepted + 1 }
    else some s
  | .serving _ _ => some s
  | .answering r =>
    if r.f.opc = .reqPosted then some { s with req := { s.req with ready := true }, tgt := .listening }
    else
      let (resp, r) := sendResp cfg s.resp r
      some { s with resp := resp, tgt := .responding r, sent := s.sent + 1 }
  | .responding r => if old.resp.ready = true then some { s with resp := { s.resp with valid := false }, tgt := .closing r } else some s
  | .closing r =>
    if r.f.opc = .reqRead ∧ r.pos + respLen cfg r < r.f.nbytes then
      let n := BitVec.ofNat 64 (respLen cfg r)
      let (resp, r) := sendResp cfg s.resp { r with pos := r.pos + respLen cfg r, sa := r.sa + n, da := r.da + n }
      some { s with resp := resp, tgt := .responding r, sent := s.sent + 1 }
    else some { s with req := { s.req with ready := true }, tgt := .listening }

/-- `b_transport` before the mutex. -/
def State.arrive (s : State) (other : Bool) : State := { s with resp := { s.resp with ready := s.resp.ready || other } }

/-- One step. -/
def step (s : State) : Event → Option State
  | .edge caller other => ((s.initiator cfg caller).target cfg s).map (State.arrive · other)
  | .served data =>
    match s.tgt with
    | .serving r a =>
      let data : ℕ → Byte := if a.read = true then data else a.data
      some { s with
        req := { s.req with ready := false }
        tgt := .answering { r with data := data }
        buffer := data
        log := s.log ++ [(a, data)] }
    | _ => none

/-! ### What is asked of them -/

/-- The bytes of an access, each with its address. -/
def touched (x : Served) : List (Addr × Byte) := (List.range x.1.len).map fun i => (x.1.address + BitVec.ofNat 64 i, x.2 i)

/-- The first `n` bytes of a call are those of the accesses in the log, one by one, each at its address and with the byte the
payload has; the bytes of a write, and those behind the first `n`, are as they were. -/
structure Moved (p : Transport) (n : ℕ) (buf : ℕ → Byte) (log : List Served) : Prop where
  bytes : log.flatMap touched = (List.range n).map fun k => (p.address + BitVec.ofNat 64 k, buf k)
  kind : ∀ x ∈ log, x.1.read = p.read
  kept : ∀ k, p.read = false ∨ n ≤ k → buf k = p.data k

/-- A call that has returned. -/
def Returned.Right (c : Returned) : Prop := Moved c.p c.p.len c.buf c.log

/-! ### Lengths -/

variable {cfg : Config} {s s' : State} {p : Transport} {pos : ℕ} {buf : ℕ → Byte} {log : List Served}

theorem nbytes_sizeOf (n : ℕ) (h : 0 < n) : (lenOf n + 1) <<< sizeOf n = n := by
  unfold lenOf sizeOf
  split <;> simp_all
  omega

theorem sizeOf_lt (n : ℕ) : sizeOf n < 8 := by
  unfold sizeOf
  split <;> decide

theorem lenOf_lt {n : ℕ} (h : n ≤ 256) : lenOf n < 256 := by
  unfold lenOf
  split
  any_goals decide
  omega

theorem tlen_pos (cfg : Config) (h : pos < p.len) : 0 < tlen cfg p pos := by
  have := cfg.bytes_pos
  rw [tlen]
  omega

theorem nbytes_fields (cfg : Config) (h : pos < p.len) : (fields cfg p pos).nbytes = tlen cfg p pos := nbytes_sizeOf _ (tlen_pos cfg h)

theorem unpack_request (hc : cfg.codec.Faithful) (p : Transport) (pos : ℕ) : cfg.codec.unpack (cfg.codec.pack (fields cfg p pos)) = fields cfg p pos :=
  hc _ (sizeOf_lt _) (lenOf_lt ((Nat.min_le_left _ _).trans cfg.bytes_le))

/-! ### Bytes -/

theorem moved_zero (p : Transport) : Moved p 0 p.data [] := ⟨rfl, fun _ hx => absurd hx List.not_mem_nil, fun _ _ => rfl⟩

/-- The access of a request. -/
def accessOf (cfg : Config) (p : Transport) (pos : ℕ) (data : ℕ → Byte) : Access :=
  ⟨p.read, p.address + BitVec.ofNat 64 pos, tlen cfg p pos, data, p.srcaddr + BitVec.ofNat 64 pos⟩

/-- The buffer when the response of an access is taken. -/
def takeResp (cfg : Config) (p : Transport) (pos : ℕ) (buf lanes : ℕ → Byte) : ℕ → Byte :=
  if p.read = true then bv2buf buf pos lanes (tlen cfg p pos) else buf

/-- One more access of a call: the bytes it reads go to the buffer, those it writes come from there. -/
theorem Moved.step (h : Moved p pos buf log) {data before lanes : ℕ → Byte}
    (hread : p.read = true → ∀ i < tlen cfg p pos, lanes i = data i) (hwrite : p.read = false → ∀ i < tlen cfg p pos, data i = buf (pos + i)) :
    Moved p (pos + tlen cfg p pos) (takeResp cfg p pos buf lanes) (log ++ [(accessOf cfg p pos before, data)]) := by
  have hbefore : ∀ k < pos, takeResp cfg p pos buf lanes k = buf k := by
    intro k hk
    rw [takeResp]
    split
    · rw [bv2buf, if_neg (by omega)]
    · rfl
  have hat : ∀ i < tlen cfg p pos, takeResp cfg p pos buf lanes (pos + i) = data i := by
    intro i hi
    rw [takeResp]
    split
    next hr =>
      rw [bv2buf, if_pos (by omega), Nat.add_sub_cancel_left]
      exact hread hr i hi
    next hr => exact (hwrite (Bool.eq_false_iff.2 hr) i hi).symm
  refine ⟨?_, ?_, ?_⟩
  · rw [List.flatMap_append, h.bytes, List.flatMap_singleton, List.range_add, List.map_append, List.map_map]
    refine congrArg₂ (· ++ ·) (List.map_congr_left fun k hk => ?_) (List.map_congr_left fun i hi => ?_)
    · rw [hbefore k (List.mem_range.1 hk)]
    · rw [Function.comp_apply, hat i (List.mem_range.1 hi), accessOf, BitVec.add_assoc, ← BitVec.ofNat_add]
  · intro x hx
    rcases List.mem_append.1 hx with hx | hx
    · exact h.kind x hx
    · rw [List.mem_singleton.1 hx]
      rfl
  · intro k hk
    rw [takeResp]
    split
    next hr =>
      have hle : pos + tlen cfg p pos ≤ k := hk.resolve_left (by simp [hr])
      rw [bv2buf, if_neg (by omega)]
      exact h.kept k (.inr (by omega))
    next hr => exact h.kept k (.inl (Bool.eq_false_iff.2 hr))

/-! ### The invariant -/

/-- The fields of a response are those of a request. -/
structure Answers (cfg : Config) (p : Transport) (pos : ℕ) (r : Response) : Prop where
  f : r.f = fields cfg p pos
  pos : r.pos = 0

/-- A call that is under way, from a byte on. -/
structure Going (s : State) (p : Transport) (pos : ℕ) : Prop where
  lt : pos < p.len
  ready : s.resp.ready = true

/-- A call whose request is taken. -/
structure Waiting (s : State) (p : Transport) (pos : ℕ) (buf : ℕ → Byte) : Prop extends Going s p pos where
  ini : s.ini = .waiting p pos buf
  valid : s.req.valid = false

/-- The target is behind its response. -/
def Closing (cfg : Config) (s : State) : Prop := s.req.ready = false ∧ ∃ q n r, s.tgt = .closing r ∧ Answers cfg q n r ∧ n < q.len

/-- What is under way of requests and responses. -/
structure Counts (s : State) (asked accepted sent : ℕ) : Prop where
  asked : s.asked = s.taken + asked
  accepted : s.accepted = s.taken + accepted
  sent : s.sent = s.taken + sent

/-- Where the two threads are. -/
inductive Phase (cfg : Config) (s : State) : Prop where
  | idle (hini : s.ini = .idle) (htgt : s.tgt = .listening) (hvalid : s.req.valid = false) (hready : s.req.ready = true)
      (hresp : s.resp.valid = false) (hlog : s.log = []) (hcounts : Counts s 0 0 0)
  | requesting (p : Transport) (pos : ℕ) (buf : ℕ → Byte) (hini : s.ini = .requesting p pos buf) (hgoing : Going s p pos)
      (hvalid : s.req.valid = true) (hpacket : s.req.packet = request cfg p pos buf)
      (htgt : s.tgt = .listening ∧ s.req.ready = true ∨ Closing cfg s)
      (hresp : s.resp.valid = false) (hmoved : Moved p pos buf s.log) (hcounts : Counts s 1 0 0)
  | serving (p : Transport) (pos : ℕ) (buf : ℕ → Byte) (hw : Waiting s p pos buf) (r : Response) (before : ℕ → Byte)
      (htgt : s.tgt = .serving r (accessOf cfg p pos before)) (hr : Answers cfg p pos r)
      (hbefore : p.read = false → ∀ i < tlen cfg p pos, before i = buf (pos + i))
      (hresp : s.resp.valid = false) (hmoved : Moved p pos buf s.log) (hcounts : Counts s 1 1 0)
  | answering (p : Transport) (pos : ℕ) (buf : ℕ → Byte) (hw : Waiting s p pos buf) (hready : s.req.ready = false) (r : Response)
      (htgt : s.tgt = .answering r) (hr : Answers cfg p pos r) (hresp : s.resp.valid = false)
      (hmoved : ∀ lanes : ℕ → Byte, (p.read = true → ∀ i < tlen cfg p pos, lanes i = r.data i) →
        Moved p (pos + tlen cfg p pos) (takeResp cfg p pos buf lanes) s.log) (hcounts : Counts s 1 1 0)
  | responding (p : Transport) (pos : ℕ) (buf : ℕ → Byte) (hw : Waiting s p pos buf) (hready : s.req.ready = false) (r : Response)
      (htgt : s.tgt = .responding r) (hr : Answers cfg p pos r) (hresp : s.resp.valid = true)
      (hmoved : Moved p (pos + tlen cfg p pos) (takeResp cfg p pos buf s.resp.packet.data) s.log) (hcounts : Counts s 1 1 1)
  | finishing (p : Transport) (buf : ℕ → Byte) (hini : s.ini = .finishing p buf) (hvalid : s.req.valid = false) (hclosing : Closing cfg s)
      (hresp : s.resp.valid = false) (hmoved : Moved p p.len buf s.log) (hcounts : Counts s 0 0 0)

/-- What holds of every state. -/
structure Inv (cfg : Config) (s : State) : Prop where
  phase : Phase cfg s
  returned : ∀ c ∈ s.returned, c.Right

theorem inv_init (cfg : Config) : Inv cfg {} := ⟨.idle rfl rfl rfl rfl rfl rfl ⟨rfl, rfl, rfl⟩, fun _ hc => absurd hc List.not_mem_nil⟩

/-! ### Steps -/

theorem Answers.nbytes {r : Response} (h : Answers cfg p pos r) (hlt : pos < p.len) : r.f.nbytes = tlen cfg p pos := by
  rw [h.f, nbytes_fields cfg hlt]

theorem Answers.respLen {r : Response} (h : Answers cfg p pos r) (hlt : pos < p.len) : respLen cfg r = tlen cfg p pos := by
  rw [Umi.respLen, h.nbytes hlt, h.pos, Nat.sub_zero]
  exact Nat.min_eq_right (Nat.min_le_left _ _)

theorem Answers.last {r : Response} (h : Answers cfg p pos r) (hlt : pos < p.len) : ¬ (r.f.opc = .reqRead ∧ r.pos + Umi.respLen cfg r < r.f.nbytes) := by
  rintro ⟨-, hmore⟩
  rw [h.respLen hlt, h.nbytes hlt, h.pos, Nat.zero_add] at hmore
  exact lt_irrefl _ hmore

theorem Answers.opc {r : Response} (h : Answers cfg p pos r) : r.f.opc = if p.read = true then .reqRead else .reqWrite := by
  rw [h.f]
  rfl

theorem accept_request (hc : cfg.codec.Faithful) (hlt : pos < p.len) (buffer : ℕ → Byte) :
    ∃ r before, accept cfg (request cfg p pos buf) buffer = some (.serving r (accessOf cfg p pos before)) ∧ Answers cfg p pos r ∧
      (p.read = false → ∀ i < tlen cfg p pos, before i = buf (pos + i)) := by
  have hunpack := unpack_request hc p pos
  have hn := nbytes_fields cfg hlt
  have hsmall : ¬ 1024 < tlen cfg p pos := by
    have := cfg.bytes_le
    have : tlen cfg p pos ≤ cfg.bytes := Nat.min_le_left _ _
    omega
  let q := request cfg p pos buf
  have hunpack : cfg.codec.unpack q.cmd = fields cfg p pos := hunpack
  refine ⟨⟨fields cfg p pos, q.srcaddr, q.dstaddr, 0, buffer, q.data⟩, if p.read = true then buffer else fun i => if i < tlen cfg p pos then q.data i else buffer i,
    ?_, ⟨rfl, rfl⟩, fun hwrite i hi => ?_⟩
  · rw [accept, show cfg.codec.unpack (request cfg p pos buf).cmd = fields cfg p pos from hunpack, hn, if_neg hsmall]
    cases hr : p.read with
    | true =>
      have hopc : (fields cfg p pos).opc = .reqRead := by rw [fields, if_pos hr]
      rw [hopc, accessOf, hr]
      rfl
    | false =>
      have hopc : (fields cfg p pos).opc = .reqWrite := by rw [fields, if_neg (by simp [hr])]
      rw [hopc, accessOf, hr]
      rfl
  · have hdata : q.data i = buf (pos + i) := if_pos ⟨hwrite, hi⟩
    rw [if_neg (by simp [hwrite]), if_pos hi, hdata]

/-- A response of a read has the bytes of its access. -/
theorem sendResp_spec {r : Response} (h : Answers cfg p pos r) (hlt : pos < p.len) (resp : Port) :
    (sendResp cfg resp r).1.valid = true ∧ (sendResp cfg resp r).1.ready = resp.ready ∧ Answers cfg p pos (sendResp cfg resp r).2 ∧
      (p.read = true → ∀ i < tlen cfg p pos, (sendResp cfg resp r).1.packet.data i = r.data i) := by
  have hopc := h.opc
  cases hr : p.read with
  | true =>
    rw [hr, if_pos rfl] at hopc
    simp only [sendResp, hopc]
    refine ⟨trivial, trivial, ⟨h.f, h.pos⟩, fun _ i hi => ?_⟩
    show (if i < respLen cfg r then r.data (r.pos + i) else r.lanes i) = r.data i
    rw [h.respLen hlt, if_pos hi, h.pos, Nat.zero_add]
  | false =>
    rw [hr, if_neg (by decide)] at hopc
    simp only [sendResp, hopc]
    exact ⟨trivial, trivial, h, fun h => Bool.noConfusion h⟩

/-- What is left to do of a call: each word takes five steps at most. -/
def left (s : State) : ℕ :=
  match s.ini with
  | .idle => 0
  | .requesting p pos _ =>
    match s.tgt with
    | .closing _ => 5 * (p.len - pos) + 1
    | _ => 5 * (p.len - pos)
  | .waiting p pos _ =>
    match s.tgt with
    | .serving _ _ => 5 * (p.len - pos) - 1
    | .answering _ => 5 * (p.len - pos) - 2
    | _ => 5 * (p.len - pos) - 3
  | .finishing _ _ => 1

/-- An edge at which the target is at its access. -/
def waits (s : State) : Event → Bool
  | .edge _ _ =>
    match s.tgt with
    | .serving _ _ => true
    | _ => false
  | .served _ => false

/-- What a step does for the call that is under way. -/
inductive Progress (s : State) (e : Event) (s' : State) : Prop where
  | idle (hini : s.ini = .idle) (hreturned : s'.returned = s.returned)
  | waits (he : waits s e = true) (hini : s'.ini = s.ini) (hleft : left s' = left s) (hreturned : s'.returned = s.returned)
  | works (hini : s'.ini ≠ .idle) (hleft : left s' < left s) (hreturned : s'.returned = s.returned)
  | returns (h : s.returned.length < s'.returned.length)

theorem Progress.returned_le {e : Event} (h : Progress s e s') : s.returned.length ≤ s'.returned.length := by
  cases h with
  | idle hini hreturned => rw [hreturned]
  | waits he hini hleft hreturned => rw [hreturned]
  | works hini hleft hreturned => rw [hreturned]
  | returns h => exact h.le

theorem inv_served {data : ℕ → Byte} (h : Inv cfg s) (hs : step cfg s (.served data) = some s') : Inv cfg s' ∧ Progress s (.served data) s' := by
  rw [step] at hs
  cases h.phase with
  | serving p pos buf hw r before htgt hr hbefore hresp hmoved hcounts =>
    rw [htgt] at hs
    obtain rfl := (Option.some.inj hs).symm
    constructor
    · refine ⟨.answering p pos buf { hw with } rfl _ rfl { hr with } hresp (fun lanes hlanes => ?_) { hcounts with }, h.returned⟩
      refine hmoved.step hlanes fun hwrite i hi => ?_
      rw [if_neg (by simp [accessOf, hwrite])]
      exact hbefore hwrite i hi
    · refine .works (by simp [hw.ini]) ?_ rfl
      have := hw.lt
      simp only [left, hw.ini, htgt]
      omega
  | idle hini htgt => simp [htgt] at hs
  | requesting p pos buf hini hgoing hvalid hpacket htgt =>
    obtain ⟨htgt, -⟩ | ⟨-, q, n, r, htgt, -⟩ := htgt
    · simp [htgt] at hs
    · simp [htgt] at hs
  | answering p pos buf hw hready r htgt => simp [htgt] at hs
  | responding p pos buf hw hready r htgt => simp [htgt] at hs
  | finishing p buf hini hvalid hclosing =>
    obtain ⟨-, q, n, r, htgt, -⟩ := hclosing
    simp [htgt] at hs

theorem Going.arrive (h : Going s p pos) (other : Bool) : Going (s.arrive other) p pos := ⟨h.lt, by simp [State.arrive, h.ready]⟩

theorem Waiting.arrive (h : Waiting s p pos buf) (other : Bool) : Waiting (s.arrive other) p pos buf :=
  ⟨h.toGoing.arrive other, h.ini, h.valid⟩

/-- A call that waits for the mutex changes nothing for the one that has it. -/
theorem Inv.arrive (h : Inv cfg s) (other : Bool) : Inv cfg (s.arrive other) := by
  refine ⟨?_, h.returned⟩
  cases h.phase with
  | idle hini htgt hvalid hready hresp hlog hcounts => exact .idle hini htgt hvalid hready hresp hlog { hcounts with }
  | requesting p pos buf hini hgoing hvalid hpacket htgt hresp hmoved hcounts =>
    exact .requesting p pos buf hini (hgoing.arrive other) hvalid hpacket htgt hresp hmoved { hcounts with }
  | serving p pos buf hw r before htgt hr hbefore hresp hmoved hcounts =>
    exact .serving p pos buf (hw.arrive other) r before htgt hr hbefore hresp hmoved { hcounts with }
  | answering p pos buf hw hready r htgt hr hresp hmoved hcounts =>
    exact .answering p pos buf (hw.arrive other) hready r htgt hr hresp hmoved { hcounts with }
  | responding p pos buf hw hready r htgt hr hresp hmoved hcounts =>
    exact .responding p pos buf (hw.arrive other) hready r htgt hr hresp hmoved { hcounts with }
  | finishing p buf hini hvalid hclosing hresp hmoved hcounts => exact .finishing p buf hini hvalid hclosing hresp hmoved { hcounts with }

/-- A caller that is there gets its call started. -/
theorem inv_start {u : State} (hini : u.ini = .idle) (htgt : u.tgt = .listening) (hvalid : u.req.valid = false) (hready : u.req.ready = true)
    (hresp : u.resp.valid = false) (hlog : u.log = []) (hcounts : Counts u 0 0 0)
    (hreturned : ∀ c ∈ u.returned, c.Right) (caller : Option Transport) :
    Inv cfg (match caller with | some p => u.ask cfg p 0 p.data | none => u) := by
  cases caller with
  | none => exact ⟨.idle hini htgt hvalid hready hresp hlog hcounts, hreturned⟩
  | some p =>
    refine ⟨.requesting p 0 p.data rfl ⟨p.len_pos, rfl⟩ rfl rfl (.inl ⟨htgt, hready⟩) hresp ?_
      { hcounts with asked := congrArg (· + 1) hcounts.asked }, hreturned⟩
    show Moved p 0 p.data u.log
    rw [hlog]
    exact moved_zero p

/-- The two threads at an edge, before another call comes. -/
theorem edge_spec (hc : cfg.codec.Faithful) (h : Inv cfg s) (caller : Option Transport) (other : Bool) :
    ∃ u, (s.initiator cfg caller).target cfg s = some u ∧ Inv cfg u ∧ Progress s (.edge caller other) (u.arrive other) := by
  unfold State.target State.initiator
  cases h.phase with
  | idle hini htgt hvalid hready hresp hlog hcounts =>
    rw [htgt, hini]
    dsimp only
    have hnot : ¬ s.req.valid = true := by simp [hvalid]
    rw [if_neg hnot]
    refine ⟨_, rfl, inv_start hini htgt hvalid hready hresp hlog hcounts h.returned caller, .idle hini ?_⟩
    cases caller with
    | none => rfl
    | some p => rfl
  | requesting p pos buf hini hgoing hvalid hpacket htgt hresp hmoved hcounts =>
    obtain ⟨htgt, hready⟩ | ⟨hready, q, n, r, htgt, hr, hn⟩ := htgt
    · obtain ⟨r, before, haccept, hr, hbefore⟩ := @accept_request cfg p pos buf hc hgoing.lt s.buffer
      rw [htgt, hini]
      dsimp only
      rw [if_pos hready, if_pos hvalid, hpacket, haccept]
      refine ⟨_, rfl, ⟨.serving p pos buf { hgoing with ini := rfl, valid := rfl } r before rfl hr hbefore hresp hmoved
        { hcounts with accepted := congrArg (· + 1) hcounts.accepted }, h.returned⟩, .works (by simp [State.arrive]) ?_ rfl⟩
      have := hgoing.lt
      simp only [left, State.arrive, hini, htgt]
      omega
    · rw [htgt, hini]
      dsimp only
      have hnot : ¬ s.req.ready = true := by simp [hready]
      rw [if_neg hnot, if_neg (hr.last hn)]
      refine ⟨_, rfl, ⟨.requesting p pos buf hini { hgoing with } hvalid hpacket (.inl ⟨rfl, rfl⟩) hresp hmoved { hcounts with }, h.returned⟩,
        .works (by simp [State.arrive, hini]) ?_ rfl⟩
      simp only [left, State.arrive, hini, htgt]
      omega
  | serving p pos buf hw r before htgt hr hbefore hresp hmoved hcounts =>
    rw [htgt, hw.ini]
    dsimp only
    have hnot : ¬ s.resp.valid = true := by simp [hresp]
    rw [if_neg hnot]
    exact ⟨s, rfl, h, .waits (by simp [waits, htgt]) rfl rfl rfl⟩
  | answering p pos buf hw hready r htgt hr hresp hmoved hcounts =>
    obtain ⟨hsendValid, hsendReady, hsendAnswers, hsendData⟩ := sendResp_spec hr hw.lt s.resp
    have hini := hw.ini
    have hposted : r.f.opc ≠ .reqPosted := by
      rw [hr.opc]
      split <;> decide
    rw [htgt, hini]
    dsimp only
    have hnot : ¬ s.resp.valid = true := by simp [hresp]
    rw [if_neg hnot, if_neg hposted]
    refine ⟨_, rfl, ⟨.responding p pos buf { hw with ready := hsendReady.trans hw.ready } hready _ rfl hsendAnswers hsendValid
      (hmoved _ hsendData) { hcounts with sent := congrArg (· + 1) hcounts.sent }, h.returned⟩, .works (by simp [State.arrive, hini]) ?_ rfl⟩
    have := hw.lt
    simp only [left, State.arrive, hini, htgt]
    omega
  | responding p pos buf hw hready r htgt hr hresp hmoved hcounts =>
    have hlt := hw.lt
    have hini := hw.ini
    have hpos := tlen_pos cfg hlt
    have hclosing : ∀ u : State, u.req.ready = s.req.ready → u.tgt = .closing r → Closing cfg u := fun u hu htgt =>
      ⟨hu.trans hready, p, pos, r, htgt, hr, hlt⟩
    rw [htgt, hini]
    dsimp only
    rw [if_pos hresp, if_pos hw.ready]
    refine ⟨_, rfl, ?_⟩
    split
    next hmore =>
      refine ⟨⟨.requesting p (pos + tlen cfg p pos) _ rfl ⟨hmore, rfl⟩ rfl rfl (.inr (hclosing _ rfl rfl)) rfl hmoved
        { hcounts with asked := congrArg (· + 1) hcounts.asked }, h.returned⟩, .works (by simp [State.arrive, State.ask]) ?_ rfl⟩
      simp only [left, State.arrive, State.ask, hini, htgt]
      omega
    next hmore =>
      have hend : pos + tlen cfg p pos = p.len := by
        rw [tlen] at hmore ⊢
        omega
      rw [hend] at hmoved
      refine ⟨⟨.finishing p _ rfl hw.valid (hclosing _ rfl rfl) rfl hmoved { hcounts with }, h.returned⟩, .works (by simp [State.arrive]) ?_ rfl⟩
      simp only [left, State.arrive, hini, htgt]
      omega
  | finishing p buf hini hvalid hclosing hresp hmoved hcounts =>
    obtain ⟨hready, q, n, r, htgt, hr, hn⟩ := hclosing
    rw [htgt, hini]
    dsimp only
    rw [if_neg (hr.last hn)]
    have hreturned : ∀ c ∈ s.returned ++ [⟨p, buf, s.log⟩], c.Right := by
      intro c hc
      rcases List.mem_append.1 hc with hc | hc
      · exact h.returned c hc
      · rw [List.mem_singleton.1 hc]
        exact hmoved
    let u : State := { s with ini := .idle, log := [], returned := s.returned ++ [⟨p, buf, s.log⟩], req := { s.req with ready := true }, tgt := .listening }
    have hstart : Inv cfg (match caller with | some p => u.ask cfg p 0 p.data | none => u) :=
      inv_start (u := u) rfl rfl hvalid rfl hresp rfl { hcounts with } hreturned caller
    have hmore : s.returned.length < (s.returned ++ [(⟨p, buf, s.log⟩ : Returned)]).length := by simp
    refine ⟨_, rfl, ?_⟩
    cases caller with
    | none => exact ⟨hstart, .returns hmore⟩
    | some p' => exact ⟨hstart, .returns hmore⟩

theorem step_edge (hc : cfg.codec.Faithful) (h : Inv cfg s) (caller : Option Transport) (other : Bool) :
    ∃ s', step cfg s (.edge caller other) = some s' ∧ Inv cfg s' ∧ Progress s (.edge caller other) s' := by
  obtain ⟨u, hu, hinv, hprogress⟩ := edge_spec hc h caller other
  exact ⟨u.arrive other, by rw [step, hu, Option.map_some], hinv.arrive other, hprogress⟩

theorem step_spec {e : Event} (hc : cfg.codec.Faithful) (h : Inv cfg s) (hs : step cfg s e = some s') : Inv cfg s' ∧ Progress s e s' := by
  cases e with
  | edge caller other =>
    obtain ⟨u, hu, hspec⟩ := step_edge hc h caller other
    rw [hu] at hs
    exact Option.some.inj hs ▸ hspec
  | served data => exact inv_served h hs

/-! ### Runs -/

/-- The steps of a run that are not edges at which the target is at its access. -/
def work (cfg : Config) : State → List Event → ℕ
  | _, [] => 0
  | s, e :: es =>
    match step cfg s e with
    | some s' => (if waits s e = true then 0 else 1) + work cfg s' es
    | none => 0

theorem returned_le_of_run (hc : cfg.codec.Faithful) {es : List Event} (h : Inv cfg s) (hs : run (step cfg) s es = some s') :
    s.returned.length ≤ s'.returned.length := by
  induction es generalizing s with
  | nil => exact (congrArg (fun u => u.returned.length) (Option.some.inj hs)).le
  | cons e es ih =>
    obtain ⟨u, hu, hrun⟩ := Option.bind_eq_some_iff.1 hs
    obtain ⟨hinv, hprogress⟩ := step_spec hc h hu
    exact hprogress.returned_le.trans (ih hinv hrun)

/-- A call that has not returned has not had all of its steps. -/
theorem work_le (hc : cfg.codec.Faithful) {es : List Event} (h : Inv cfg s) (hini : s.ini ≠ .idle) (hs : run (step cfg) s es = some s')
    (hreturned : s'.returned.length = s.returned.length) : work cfg s es ≤ left s := by
  induction es generalizing s with
  | nil => exact Nat.zero_le _
  | cons e es ih =>
    obtain ⟨u, hu, hrun⟩ := Option.bind_eq_some_iff.1 hs
    obtain ⟨hinv, hprogress⟩ := step_spec hc h hu
    have hle := returned_le_of_run hc hinv hrun
    simp only [work, hu]
    cases hprogress with
    | idle hidle => exact absurd hidle hini
    | waits he hini' hleft hsame =>
      have := ih hinv (hini' ▸ hini) hrun (by rw [hreturned, hsame])
      rw [if_pos he]
      omega
    | works hini' hleft hsame =>
      have := ih hinv hini' hrun (by rw [hreturned, hsame])
      split <;> omega
    | returns hlt => omega

/-- The two bridges in step: there is one response for a request, and it is taken before the next request is there. -/
structure InStep (s : State) : Prop where
  taken : s.taken ≤ s.sent
  sent : s.sent ≤ s.accepted
  accepted : s.accepted ≤ s.asked
  asked : s.asked ≤ s.taken + 1
  idle : s.ini = .idle → s.asked = s.taken

theorem Counts.inStep {asked accepted sent : ℕ} (h : Counts s asked accepted sent) (hsent : sent ≤ accepted) (hacc : accepted ≤ asked)
    (hask : asked ≤ 1) (hidle : s.ini = .idle → asked = 0) : InStep s := by
  obtain ⟨h₁, h₂, h₃⟩ := h
  exact ⟨by omega, by omega, by omega, by omega, fun hini => by rw [h₁, hidle hini, Nat.add_zero]⟩

theorem Inv.inStep (h : Inv cfg s) : InStep s := by
  cases h.phase with
  | idle hini htgt hvalid hready hresp hlog hcounts => exact hcounts.inStep le_rfl le_rfl zero_le_one fun _ => rfl
  | requesting p pos buf hini hgoing hvalid hpacket htgt hresp hmoved hcounts =>
    exact hcounts.inStep le_rfl zero_le_one le_rfl (by simp [hini])
  | serving p pos buf hw r before htgt hr hbefore hresp hmoved hcounts => exact hcounts.inStep zero_le_one le_rfl le_rfl (by simp [hw.ini])
  | answering p pos buf hw hready r htgt hr hresp hmoved hcounts => exact hcounts.inStep zero_le_one le_rfl le_rfl (by simp [hw.ini])
  | responding p pos buf hw hready r htgt hr hresp hmoved hcounts => exact hcounts.inStep le_rfl le_rfl le_rfl (by simp [hw.ini])
  | finishing p buf hini hvalid hclosing hresp hmoved hcounts => exact hcounts.inStep le_rfl le_rfl zero_le_one fun _ => rfl

/-- **UMI round trip**: whatever the target takes for its accesses, each call that returns has had each of its bytes accessed
once, at its address, the requests and the responses are in step, no edge finds the bridges stuck, and a call has returned when
its steps, the edges of the accesses apart, are done. -/
theorem umi_round_trip (hc : cfg.codec.Faithful) (h : Reach (step cfg) anyStep {} s) :
    (∀ c ∈ s.returned, c.Right) ∧ InStep s ∧ (∀ caller other, ∃ s', step cfg s (.edge caller other) = some s') ∧
      (s.ini ≠ .idle → ∀ es s', run (step cfg) s es = some s' → s'.returned.length = s.returned.length → work cfg s es ≤ left s) := by
  have hinv : Inv cfg s := h.invariant (inv_init cfg) fun hi _ hs => (step_spec hc hi hs).1
  refine ⟨hinv.returned, hinv.inStep, fun caller other => ?_, fun hini es s' hrun => work_le hc hinv hini hrun⟩
  obtain ⟨s', hs, -⟩ := step_edge hc hinv caller other
  exact ⟨s', hs⟩

/-- A number for each opcode. -/
def Opc.code : Opc → ℕ
  | .reqRead => 1
  | .reqWrite => 3
  | .reqPosted => 5
  | .respRead => 2
  | .respWrite => 4

/-- The opcode of a number. -/
def Opc.ofCode : ℕ → Opc
  | 1 => .reqRead
  | 3 => .reqWrite
  | 5 => .reqPosted
  | 2 => .respRead
  | _ => .respWrite

/-- A command word with the opcode in five bits, the size in three, the length in eight and a bit for each flag. -/
def packed : Codec where
  pack f := BitVec.ofNat 32 (f.opc.code + 32 * (f.size + 8 * (f.len + 256 * (f.eof.toNat + 2 * f.eom.toNat))))
  unpack v := ⟨Opc.ofCode (v.toNat % 32), v.toNat / 32 % 8, v.toNat / 256 % 256, v.toNat.testBit 16, v.toNat.testBit 17⟩

theorem Opc.ofCode_code (o : Opc) : Opc.ofCode o.code = o ∧ o.code < 32 := by cases o <;> decide

theorem packed_faithful : packed.Faithful := by
  rintro ⟨opc, size, len, eof, eom⟩ (hsize : size < 8) (hlen : len < 256)
  obtain ⟨hcode, hlt⟩ := opc.ofCode_code
  have heof : eof.toNat < 2 := Bool.toNat_lt eof
  have heom : eom.toNat < 2 := Bool.toNat_lt eom
  have hmod : (opc.code + 32 * (size + 8 * (len + 256 * (eof.toNat + 2 * eom.toNat)))) % 2 ^ 32 =
      opc.code + 32 * (size + 8 * (len + 256 * (eof.toNat + 2 * eom.toNat))) := Nat.mod_eq_of_lt (by omega)
  simp only [packed, BitVec.toNat_ofNat, hmod, Nat.testBit_eq_decide_div_mod_eq, Fields.mk.injEq]
  refine ⟨?_, by omega, by omega, ?_, ?_⟩
  · rw [Nat.add_mul_mod_self_left, Nat.mod_eq_of_lt hlt, hcode]
  · cases eof <;> simp only [Bool.toNat_true, Bool.toNat_false, decide_eq_true_eq, decide_eq_false_iff_not] <;> omega
  · cases eom <;> simp only [Bool.toNat_true, Bool.toNat_false, decide_eq_true_eq, decide_eq_false_iff_not] <;> omega

theorem narrow_pos : 0 < 4 := by decide

theorem narrow_le : 4 ≤ 256 := by decide

theorem six_pos : 0 < 6 := by decide

/-- Four bytes of data. -/
def narrow : Config := ⟨4, false, packed, narrow_pos, narrow_le⟩

/-- A read of six bytes, in two words, the target an edge late with the first. -/
def sixBytes : List Event :=
  let p : Transport := ⟨true, 0x1002, 6, fun _ => 0, 0, six_pos⟩
  [.edge (some p) true, .edge none false, .edge none false, .served fun i => BitVec.ofNat 8 (0x40 + i), .edge none true, .edge none false, .edge none false,
    .edge none false, .served fun i => BitVec.ofNat 8 (0x50 + i), .edge none false, .edge none false, .edge none false]

theorem umi_round_trip_sixBytes : ∃ s, run (step narrow) {} sixBytes = some s ∧ s.returned.length = 1 ∧ (∀ c ∈ s.returned, c.Right) ∧ InStep s := by
  have hrun : ((run (step narrow) {} sixBytes).map fun s => s.returned.length) = some 1 := rfl
  obtain ⟨s, hs, hlen⟩ := Option.map_eq_some_iff.1 hrun
  obtain ⟨hright, hstep, -⟩ := @umi_round_trip narrow s packed_faithful (reach_of_run hs)
  exact ⟨s, hs, hlen, hright, hstep⟩

end LibSystemCTLM.Umi
