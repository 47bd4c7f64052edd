import LibSystemCTLM.Ace.Cache

/-!
# Transactions through the interconnect

`iconnect_ace` for the transactions of the write-back caches on its ACE ports, each carried out
at once: an `Evict` is answered in the port, a transaction that does not snoop goes downstream,
and a snooping transaction of one cacheline passes the PoS monitor, snoops the other ports,
writes dirty data that may not be passed on downstream, and goes downstream itself if no port
answered it.

The ports are snooped by threads of their own, so their answers arrive in any order: `order` is
the order in which they do. A port that is waiting for a `WriteBack` or `WriteClean` does not
answer a snoop, and then the transaction is not carried out.
-/

namespace LibSystemCTLM.Ace

open Foundation

/-- `PosMonitor`. -/
structure PosMonitor (N : ℕ) where
  lock : Bool := false
  portSet : Fin N → Bool := fun _ => false

namespace PosMonitor

variable {N : ℕ} (m : PosMonitor N)

/-- `Set`. -/
def set (port : Fin N) : PosMonitor N := { m with portSet := Function.update m.portSet port true }

/-- `IsSet`. -/
def isSet (port : Fin N) : Bool := m.portSet port

/-- `Reset`: every port but this one. -/
def reset (port : Fin N) : PosMonitor N := { m with portSet := fun id => m.portSet id && decide (id = port) }

/-- `SetLock`. -/
def setLock (val : Bool) : PosMonitor N := { m with lock := val }

/-- `Set`, unless the monitor is locked. -/
def setUnlessLocked (port : Fin N) : PosMonitor N := if m.lock then m else m.set port

end PosMonitor

variable {N : ℕ} (ls : LineSize)

/-- `handle_exclusive`: the monitor, the transaction and whether it proceeds. -/
def handleExclusive (m : PosMonitor N) (port : Fin N) (tr : Transaction) : PosMonitor N × Transaction × Bool :=
  if tr.isCleanUnique then
    let proceed := m.isSet port
    let m' := m.setUnlessLocked port
    if proceed then (((m'.reset port).setLock true), tr.setExokay, true)
    else (m', { tr with response := .ok }, false)
  else if tr.isReadShared || tr.isReadClean then (m.setUnlessLocked port, tr.setExokay, true)
  else (m, tr, true)

/-- An exclusive transaction passes the PoS monitor first (`snoop_engine_thread`). -/
def passMonitor (m : PosMonitor N) (port : Fin N) (tr : Transaction) : PosMonitor N × Transaction × Bool :=
  if tr.genattr.exclusive then handleExclusive m port tr else (m, tr, true)

/-- A downstream memory that answers OK. -/
def downstream (mem : Addr → Byte) (tr : Transaction) : (Addr → Byte) × Transaction :=
  match tr.cmd with
  | .read _ => (mem, { tr with data := readFrom mem tr.address, response := .ok })
  | .write _ =>
    let enabled := fun i =>
      tr.byteEnable.isEmpty || decide (tr.byteEnable.getD (i % tr.byteEnable.length) 0 = byteEnabled)
    ((Write.mk tr.address tr.dataLength enabled tr.data).apply mem, { tr with response := .ok })
  | .ignoreRead _ | .ignoreWrite _ => (mem, { tr with response := .ok })

/-- A cache answers the snoop `init_snoop_gp` sets up. -/
def snoopAnswer (snoop : AC) (addr : Addr) (secure : Bool) (c : Cache) : Cache × SnoopGp :=
  c.bTransportSnoop ls snoop addr { data := fun _ => 0, genattr := { secure } }

/-- A snooped port answers (`snoop_master_thread`), then `PortDone`. -/
def snoopPort (s : (Fin N → Cache) × Transaction × SnoopTransaction) (i : Fin N) :
    (Fin N → Cache) × Transaction × SnoopTransaction :=
  let st := s.2.2
  let ans := snoopAnswer ls st.snoop st.addr st.secure (s.1 i)
  (Function.update s.1 i ans.1, SnoopTransaction.portDone ls s.2.1 st ans.2)

/-- `process_snoop`: the ports answer in the given order. -/
def processSnoop (order : List (Fin N)) (cs : Fin N → Cache) (tr : Transaction) (st : SnoopTransaction) :
    (Fin N → Cache) × Transaction × SnoopTransaction := order.foldl (snoopPort ls) (cs, tr, st)

/-- `snoop_done_thread`, `exec_snoop_downstream_gp` and `finalize_snoop_tr` for the transactions
that are not `ReadOnce` or `WriteUnique`: these have a single cacheline. -/
def finalizeSnoopTr (mem : Addr → Byte) (tr : Transaction) (st : SnoopTransaction) : (Addr → Byte) × Transaction :=
  let mem' := if st.execDsGp then writeAt mem st.addr ls.size st.dsData else mem
  if tr.done then (mem', tr) else downstream mem' tr

/-- What an accepted transaction leaves behind. -/
structure Accepted (N : ℕ) where
  caches : Fin N → Cache
  exmon : PosMonitor N
  mem : Addr → Byte
  tr : Transaction
  /-- The snoop sent to the other ports, if any was. -/
  snooped : Option AC

/-- `ACEPort_S::b_transport` of port `port`. `waiting i` says that the master at port `i` has a
`WriteBack` or a `WriteClean` under way. -/
def bTransport (waiting : Fin N → Bool) (order : List (Fin N)) (caches : Fin N → Cache) (exmon : PosMonitor N)
    (mem : Addr → Byte) (port : Fin N) (tr : Transaction) : Option (Accepted N) :=
  if tr.isEvict || tr.isBarrier then some ⟨caches, exmon, mem, { tr with response := .ok }, none⟩
  else if tr.isSnoopingTransaction then
    let p := passMonitor exmon port tr
    if p.2.2 = false then some ⟨caches, p.1, mem, p.2.1, none⟩
    else if (∀ i, i ∈ order ↔ i ≠ port) ∧ order.Nodup ∧ ∀ i ∈ order, waiting i = false then
      let s := processSnoop ls order caches p.2.1 (SnoopTransaction.mk' p.2.1 (ls.getTag tr.address) (N - 1))
      let d := finalizeSnoopTr ls mem s.2.1 s.2.2
      some ⟨s.1, p.1, d.1, d.2, some (snoopOf tr.cmd)⟩
    else none
  else
    let d := downstream mem tr
    some ⟨caches, exmon, d.1, d.2, none⟩

end LibSystemCTLM.Ace
