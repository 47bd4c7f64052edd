import LibSystemCTLM.Axi.HandshakeChecker
import Mathlib.Data.List.Perm.Subperm

/-!
# What the handshake checker counts

The counters should be what the ledger says is owed, and a hangup be reported when and only when a channel has been
due or pending for `max_clks` edges (`Counted`). That is so in legal runs (`counted_of_run`) in which, in AXI3, the
beats that wait for their address and the addresses that wait for their beats do not get in each other's way, and
in ACE each transaction with a single read beat is known for one.
-/

namespace LibSystemCTLM.Axi.Handshakes

open Foundation Ace

variable {proto : Protocol} {maxClks : ℕ}

/-! ### What is asked -/

structure Counted (proto : Protocol) (s : State) : Prop where
  rt : s.checker.rt = s.ledger.owed
  wd : s.checker.wd = s.ledger.announced.length - s.ledger.transferred.length
  b : s.checker.b = s.checker.bids.length
  bids : ∀ id, s.checker.bids.count id = s.ledger.unanswered proto id
  hangs : s.checker.reports = s.ledger.hangs

/-- What the protocol asks: no read beat and no response that is not owed, and `valid` is not taken back. -/
def Legal (proto : Protocol) (s : State) : Act → Prop
  | .edge e => (e.valid .r = true → 0 < s.ledger.owed) ∧ (e.valid .b = true → 0 < s.ledger.unanswered proto e.bid) ∧
      ∀ c, e.valid c = false → s.ledger.pendingFor c = 0
  | .reset => True

/-- Not one ID has beats that are announced, and another beats that were sent ahead. -/
def Ledger.Apart (l : Ledger) : Prop := ∀ κ κ', l.transferred.count κ < l.announced.count κ → l.transferred.count κ' ≤ l.announced.count κ'

/-- The addresses whose last beat was not accepted, and the last beats whose address was not, in AXI3. -/
def Ledger.openAddrs (l : Ledger) : List (BitVec 32) := l.addrs.diff l.lasts

def Ledger.openLasts (l : Ledger) : List (BitVec 32) := l.lasts.diff l.addrs

/-- With the address of an edge. -/
def Ledger.acceptAddr (l : Ledger) (proto : Protocol) (e : Edge) : Ledger :=
  { l with
    announced := l.announced ++ Ledger.given e .aw (if e.hasData proto = true then List.replicate (e.awlen + 1) (keyOf proto e.awid) else [])
    addrs := l.addrs ++ Ledger.given e .aw (if e.hasData proto = true then [e.awid] else [])
    dataless := l.dataless ++ Ledger.given e .aw (if e.hasData proto = true then [] else [e.awid]) }

/-- No ID gets in the way of another one in AXI3. -/
structure Unblocked (proto : Protocol) (l : Ledger) (e : Edge) : Prop where
  addr : e.transfer .aw = true → e.awid ∈ l.openLasts → l.openAddrs.length < l.openLasts.length
  last : e.transfer .w = true → e.wlast = true → e.wid ∈ (l.acceptAddr proto e).openAddrs →
    (l.acceptAddr proto e).openLasts.length < (l.acceptAddr proto e).openAddrs.length

/-- What has to hold besides, so that the checker is right. -/
def Fair (proto : Protocol) (maxClks : ℕ) (s : State) (a : Act) : Prop :=
  Legal proto s a ∧
    match a with
    | .edge e =>
        (e.transfer .ar = true → e.readBeats proto = e.getArlen proto + 1) ∧ (∀ c, s.ledger.dueFor c + 1 < 2 ^ 32 ∧ s.ledger.pendingFor c + 1 < 2 ^ 32) ∧
          (proto = .axi3 → Unblocked proto s.ledger e ∧ (s.ledger.accept proto maxClks e).Apart)
    | .reset => True

/-! ### What a run keeps -/

/-- The addresses that wait for their last beat, and the last beats that wait for their address. -/
structure Queues (proto : Protocol) (l : Ledger) (s : Checker) : Prop where
  axi3 : proto = .axi3 → s.aw = s.awids.length ∧ s.wlast = s.wids.length ∧
    ∀ id, s.awids.count id = l.addrs.count id - l.lasts.count id ∧ s.wids.count id = l.lasts.count id - l.addrs.count id
  axi4 : proto ≠ .axi3 → s.aw = l.addrs.length - l.lasts.length ∧ s.wlast = l.lasts.length - l.addrs.length ∧ s.awids = l.addrs.drop l.lasts.length

theorem Queues.open_perm {l : Ledger} {s : Checker} (h : Queues proto l s) (haxi3 : proto = .axi3) :
    s.awids.Perm l.openAddrs ∧ s.wids.Perm l.openLasts ∧ s.aw = l.openAddrs.length ∧ s.wlast = l.openLasts.length := by
  obtain ⟨haw, hwlast, hcount⟩ := h.axi3 haxi3
  have hawids : s.awids.Perm l.openAddrs := List.perm_iff_count.2 fun id => by
    rw [Ledger.openAddrs, List.count_diff]
    exact (hcount id).1
  have hwids : s.wids.Perm l.openLasts := List.perm_iff_count.2 fun id => by
    rw [Ledger.openLasts, List.count_diff]
    exact (hcount id).2
  exact ⟨hawids, hwids, haw.trans hawids.length_eq, hwlast.trans hwids.length_eq⟩

/-- The counters against the ledger. -/
structure Counts (proto : Protocol) (l : Ledger) (s : Checker) : Prop where
  rt : s.rt = l.owed
  wd : s.wd = l.announced.length - l.transferred.length
  b : s.b = s.bids.length
  bids : ∀ id, s.bids.count id + l.answered.count id = l.completed proto id + l.dataless.count id
  queues : Queues proto l s

/-! ### Lists of keys -/

section Keys

variable {A T : List (BitVec 32)}

/-- More of all, where there are not fewer of any. -/
theorem length_lt_iff (h : ∀ κ κ', A.count κ < T.count κ → A.count κ' ≤ T.count κ'):
    A.length < T.length ↔ ∃ κ ∈ T, A.count κ < T.count κ := by
  constructor
  · intro hlt
    by_contra hnone
    have hsub : T.Subperm A := List.subperm_ext_iff.2 fun κ hκ => not_lt.1 fun hmore => hnone ⟨κ, hκ, hmore⟩
    exact absurd hsub.length_le (not_le.2 hlt)
  · rintro ⟨κ, hκ, hmore⟩
    have hsub : A.Subperm T := List.subperm_ext_iff.2 fun κ' _ => h κ κ' hmore
    refine lt_of_le_of_ne hsub.length_le fun heq => ?_
    exact hmore.ne ((hsub.perm_of_length_le heq.ge).count_eq κ)

end Keys

/-! ### Counting -/

section Counting

variable {l : Ledger} {s : Checker} {e : Edge}

theorem count_concat (ids : List (BitVec 32)) (a id : BitVec 32) : (ids ++ [a]).count id = ids.count id + if a = id then 1 else 0 := by
  rw [List.count_append, List.count_singleton]
  simp only [beq_iff_eq]

theorem count_erase_eq (ids : List (BitVec 32)) (a id : BitVec 32) : (ids.erase a).count id = ids.count id - if a = id then 1 else 0 := by
  rw [List.count_erase]
  simp only [beq_iff_eq]

/-- An address with data. -/
def Ledger.withAddr (l : Ledger) (proto : Protocol) (e : Edge) : Ledger :=
  { l with announced := l.announced ++ List.replicate (e.awlen + 1) (keyOf proto e.awid), addrs := l.addrs ++ [e.awid] }

/-- A write beat. -/
def Ledger.withBeat (l : Ledger) (proto : Protocol) (e : Edge) : Ledger :=
  { l with transferred := l.transferred ++ [keyOf proto e.wid], lasts := l.lasts ++ if e.wlast = true then [e.wid] else [] }

theorem Counts.dataless (h : Counts proto l s) (hdata : e.hasData proto = false) :
    Counts proto { l with dataless := l.dataless ++ [e.awid] } (s.awHandshake proto e) := by
  unfold Checker.awHandshake
  rw [if_pos hdata]
  refine ⟨h.rt, h.wd, ?_, fun id => ?_, ⟨h.queues.axi3, h.queues.axi4⟩⟩
  · rw [List.length_append, h.b]
    rfl
  · have hid := h.bids id
    change (s.bids ++ [e.awid]).count id + l.answered.count id = l.completed proto id + (l.dataless ++ [e.awid]).count id
    rw [count_concat, count_concat]
    omega

theorem wd_announced (h : Counts proto l s) : s.wd + (e.awlen + 1) = (l.withAddr proto e).announced.length - l.transferred.length := by
  change _ = ((l.announced ++ List.replicate (e.awlen + 1) (keyOf proto e.awid)).length : ℤ) - _
  rw [List.length_append, List.length_replicate, h.wd]
  omega

/-- An address whose last beat was sent ahead is complete, another one waits. -/
theorem Counts.addr_axi3 (h : Counts .axi3 l s) (hdata : e.hasData .axi3 = true) (hfair : e.awid ∈ s.wids → s.aw < s.wlast) :
    Counts .axi3 (l.withAddr .axi3 e) (s.awHandshake .axi3 e) := by
  obtain ⟨haw, hwlast, hqueues⟩ := h.queues.axi3 rfl
  have hid : ∀ id, s.bids.count id + l.answered.count id = min (l.addrs.count id) (l.lasts.count id) + l.dataless.count id := h.bids
  simp only [Checker.awHandshake, hdata, Bool.true_eq_false, if_false, if_true, decide_eq_true_eq]
  split
  · rename_i hahead
    have hpos : 0 < s.wids.count e.awid := List.count_pos_iff.2 hahead.1
    refine ⟨h.rt, wd_announced h, ?_, fun id => ?_, ⟨fun _ => ⟨?_, ?_, fun id => ?_⟩, fun hne => absurd rfl hne⟩⟩
    · rw [List.length_append, h.b]
      rfl
    · change (s.bids ++ [e.awid]).count id + l.answered.count id = min ((l.addrs ++ [e.awid]).count id) (l.lasts.count id) + l.dataless.count id
      rw [count_concat, count_concat]
      have := hid id
      have hqueue := (hqueues e.awid).2
      split
      · rename_i heq
        subst heq
        omega
      · omega
    · exact haw
    · rw [List.length_erase_of_mem hahead.1, hwlast]
    · change s.awids.count id = (l.addrs ++ [e.awid]).count id - l.lasts.count id ∧ (s.wids.erase e.awid).count id = l.lasts.count id - (l.addrs ++ [e.awid]).count id
      rw [count_concat, count_erase_eq]
      have hqueue := hqueues id
      have hself := (hqueues e.awid).2
      split
      · rename_i heq
        subst heq
        omega
      · omega
  · rename_i hnot
    have hnone : s.wids.count e.awid = 0 := List.count_eq_zero.2 fun hin => hnot ⟨hin, hfair hin⟩
    have hself := (hqueues e.awid).2
    refine ⟨h.rt, wd_announced h, h.b, fun id => ?_, ⟨fun _ => ⟨?_, hwlast, fun id => ?_⟩, fun hne => absurd rfl hne⟩⟩
    · change s.bids.count id + l.answered.count id = min ((l.addrs ++ [e.awid]).count id) (l.lasts.count id) + l.dataless.count id
      rw [count_concat]
      have := hid id
      split
      · rename_i heq
        subst heq
        omega
      · omega
    · rw [List.length_append, haw]
      rfl
    · change (s.awids ++ [e.awid]).count id = (l.addrs ++ [e.awid]).count id - l.lasts.count id ∧ s.wids.count id = l.lasts.count id - (l.addrs ++ [e.awid]).count id
      rw [count_concat, count_concat]
      have hqueue := hqueues id
      split
      · rename_i heq
        subst heq
        omega
      · omega

theorem Counts.bids_axi4 (hproto : proto ≠ .axi3) (h : Counts proto l s) (id : BitVec 32) :
    s.bids.count id + l.answered.count id = (l.addrs.take l.lasts.length).count id + l.dataless.count id := by
  have hbids := h.bids id
  rwa [Ledger.completed, if_neg hproto] at hbids

/-- An address in AXI4 is complete when a last beat waits for one. -/
theorem Counts.addr_axi4 (hproto : proto ≠ .axi3) (h : Counts proto l s) (hdata : e.hasData proto = true) :
    Counts proto (l.withAddr proto e) (s.awHandshake proto e) := by
  obtain ⟨haw, hwlast, hawids⟩ := h.queues.axi4 hproto
  have hid := h.bids_axi4 hproto
  have hcompleted : ∀ id, (l.withAddr proto e).completed proto id = ((l.addrs ++ [e.awid]).take l.lasts.length).count id := fun _ => if_neg hproto
  simp only [Checker.awHandshake, hdata, Bool.true_eq_false, if_false, if_neg hproto, true_and]
  split
  · rename_i hahead
    have hlt : l.addrs.length < l.lasts.length := by omega
    refine ⟨h.rt, wd_announced h, ?_, fun id => ?_, ⟨fun heq => absurd heq hproto, fun _ => ⟨?_, ?_, ?_⟩⟩⟩
    · rw [List.length_append, h.b]
      rfl
    · have hbefore := hid id
      rw [List.take_of_length_le hlt.le] at hbefore
      rw [hcompleted, List.take_of_length_le (by rw [List.length_append]; exact hlt), count_concat, count_concat]
      change s.bids.count id + _ + l.answered.count id = l.addrs.count id + _ + l.dataless.count id
      omega
    · change s.aw = (l.addrs ++ [e.awid]).length - l.lasts.length
      rw [List.length_append, List.length_singleton]
      omega
    · change s.wlast - 1 = l.lasts.length - (l.addrs ++ [e.awid]).length
      rw [List.length_append, List.length_singleton]
      omega
    · change s.awids = (l.addrs ++ [e.awid]).drop l.lasts.length
      rw [hawids, List.drop_of_length_le hlt.le, List.drop_of_length_le (by rw [List.length_append]; exact hlt)]
  · rename_i hnot
    have hle : l.lasts.length ≤ l.addrs.length := by omega
    refine ⟨h.rt, wd_announced h, h.b, fun id => ?_, ⟨fun heq => absurd heq hproto, fun _ => ⟨?_, ?_, ?_⟩⟩⟩
    · rw [hcompleted, List.take_append_of_le_length hle]
      exact hid id
    · change s.aw + 1 = (l.addrs ++ [e.awid]).length - l.lasts.length
      rw [List.length_append, List.length_singleton]
      omega
    · change s.wlast = l.lasts.length - (l.addrs ++ [e.awid]).length
      rw [List.length_append, List.length_singleton]
      omega
    · change s.awids ++ [e.awid] = (l.addrs ++ [e.awid]).drop l.lasts.length
      rw [List.drop_append_of_le_length hle, hawids]

theorem wd_transferred (h : Counts proto l s) : s.wd - 1 = l.announced.length - (l.withBeat proto e).transferred.length := by
  change _ = (l.announced.length : ℤ) - ((l.transferred ++ [keyOf proto e.wid]).length : ℕ)
  rw [List.length_append, List.length_singleton, h.wd]
  omega

theorem Counts.beat (h : Counts proto l s) (hlast : e.wlast = false) : Counts proto (l.withBeat proto e) (s.wHandshake proto e) := by
  have hlasts : (l.withBeat proto e).lasts = l.lasts := by
    unfold Ledger.withBeat
    rw [hlast]
    exact List.append_nil _
  unfold Checker.wHandshake
  rw [hlast, if_neg Bool.false_ne_true]
  refine ⟨h.rt, wd_transferred h, h.b, fun id => ?_, ⟨fun heq => ?_, fun hne => ?_⟩⟩
  · unfold Ledger.completed
    rw [hlasts]
    exact h.bids id
  · rw [hlasts]
    exact h.queues.axi3 heq
  · rw [hlasts]
    exact h.queues.axi4 hne

/-- A last beat whose address is there ends the write, another one waits. -/
theorem Counts.last_axi3 (h : Counts .axi3 l s) (hlast : e.wlast = true) (hfair : e.wid ∈ s.awids → s.wlast < s.aw) :
    Counts .axi3 (l.withBeat .axi3 e) (s.wHandshake .axi3 e) := by
  obtain ⟨haw, hwlast, hqueues⟩ := h.queues.axi3 rfl
  have hid : ∀ id, s.bids.count id + l.answered.count id = min (l.addrs.count id) (l.lasts.count id) + l.dataless.count id := h.bids
  have hlasts : (l.withBeat .axi3 e).lasts = l.lasts ++ [e.wid] := by
    unfold Ledger.withBeat
    rw [hlast]
    rfl
  have hcompleted : ∀ id, (l.withBeat .axi3 e).completed .axi3 id = min (l.addrs.count id) (l.lasts.count id + if e.wid = id then 1 else 0) := by
    intro id
    rw [← count_concat, ← hlasts]
    rfl
  have hself := (hqueues e.wid).1
  simp only [Checker.wHandshake, hlast, if_true, decide_eq_true_eq]
  split
  · rename_i hahead
    have hpos : 0 < s.awids.count e.wid := List.count_pos_iff.2 hahead.1
    refine ⟨h.rt, wd_transferred h, ?_, fun id => ?_, ⟨fun _ => ⟨?_, hwlast, fun id => ?_⟩, fun hne => absurd rfl hne⟩⟩
    · rw [List.length_append, h.b]
      rfl
    · rw [hcompleted, count_concat]
      change s.bids.count id + _ + l.answered.count id = _ + l.dataless.count id
      have := hid id
      split
      · rename_i heq
        subst heq
        omega
      · omega
    · rw [List.length_erase_of_mem hahead.1, haw]
    · rw [hlasts, count_concat, count_erase_eq]
      change _ = l.addrs.count id - _ ∧ s.wids.count id = _ - l.addrs.count id
      have hqueue := hqueues id
      split
      · rename_i heq
        subst heq
        omega
      · omega
  · rename_i hnot
    have hnone : s.awids.count e.wid = 0 := List.count_eq_zero.2 fun hin => hnot ⟨hin, hfair hin⟩
    refine ⟨h.rt, wd_transferred h, h.b, fun id => ?_, ⟨fun _ => ⟨haw, ?_, fun id => ?_⟩, fun hne => absurd rfl hne⟩⟩
    · rw [hcompleted]
      change s.bids.count id + l.answered.count id = _ + l.dataless.count id
      have := hid id
      split
      · rename_i heq
        subst heq
        omega
      · omega
    · rw [List.length_append, hwlast]
      rfl
    · rw [hlasts, count_concat, count_concat]
      change s.awids.count id = l.addrs.count id - _ ∧ _ = _ - l.addrs.count id
      have hqueue := hqueues id
      split
      · rename_i heq
        subst heq
        omega
      · omega

/-- A last beat in AXI4 is that of the first address that waits. -/
theorem Counts.last_axi4 (hproto : proto ≠ .axi3) (h : Counts proto l s) (hlast : e.wlast = true) :
    Counts proto (l.withBeat proto e) (s.wHandshake proto e) := by
  obtain ⟨haw, hwlast, hawids⟩ := h.queues.axi4 hproto
  have hid := h.bids_axi4 hproto
  have hlength : (l.withBeat proto e).lasts.length = l.lasts.length + 1 := by
    unfold Ledger.withBeat
    rw [hlast]
    exact List.length_append
  have hcompleted : ∀ id, (l.withBeat proto e).completed proto id = (l.addrs.take (l.lasts.length + 1)).count id := by
    intro id
    rw [← hlength]
    exact if_neg hproto
  simp only [Checker.wHandshake, hlast, if_true, if_neg hproto, true_and]
  split
  · rename_i hahead
    have hlt : l.lasts.length < l.addrs.length := by omega
    have hfirst : s.awids.head?.toList = [l.addrs[l.lasts.length]] := by
      rw [hawids, List.head?_drop, List.getElem?_eq_getElem hlt]
      rfl
    refine ⟨h.rt, wd_transferred h, ?_, fun id => ?_, ⟨fun heq => absurd heq hproto, fun _ => ⟨?_, ?_, ?_⟩⟩⟩
    · rw [hfirst, List.length_append, h.b]
      rfl
    · rw [hcompleted, hfirst, List.take_add_one, List.getElem?_eq_getElem hlt, Option.toList_some, count_concat, count_concat]
      change s.bids.count id + _ + l.answered.count id = _ + l.dataless.count id
      have := hid id
      omega
    · rw [hlength]
      change s.aw - 1 = l.addrs.length - _
      omega
    · rw [hlength]
      change s.wlast = _ - l.addrs.length
      omega
    · rw [hlength, hawids, List.tail_drop]
      rfl
  · rename_i hnot
    have hle : l.addrs.length ≤ l.lasts.length := by omega
    refine ⟨h.rt, wd_transferred h, h.b, fun id => ?_, ⟨fun heq => absurd heq hproto, fun _ => ⟨?_, ?_, ?_⟩⟩⟩
    · have hbefore := hid id
      rw [List.take_of_length_le hle] at hbefore
      rw [hcompleted, List.take_of_length_le (hle.trans (Nat.le_succ _))]
      exact hbefore
    · rw [hlength]
      change s.aw = l.addrs.length - _
      omega
    · rw [hlength]
      change s.wlast + 1 = _ - l.addrs.length
      omega
    · rw [hlength, hawids, List.drop_of_length_le hle]
      exact (List.drop_of_length_le (hle.trans (Nat.le_succ _))).symm

theorem Counts.response (h : Counts proto l s) (hmem : e.bid ∈ s.bids) :
    Counts proto { l with answered := l.answered ++ [e.bid] } (s.bHandshake e) := by
  unfold Checker.bHandshake
  rw [if_pos hmem]
  refine ⟨h.rt, h.wd, ?_, fun id => ?_, ⟨h.queues.axi3, h.queues.axi4⟩⟩
  · rw [List.length_erase_of_mem hmem, h.b]
  · have hpos : 0 < s.bids.count e.bid := List.count_pos_iff.2 hmem
    have hid := h.bids id
    change (s.bids.erase e.bid).count id + (l.answered ++ [e.bid]).count id = l.completed proto id + l.dataless.count id
    rw [count_erase_eq, count_concat]
    split
    · rename_i heq
      subst heq
      omega
    · omega

theorem Counts.read (h : Counts proto l s) {rt : ℕ} : Counts proto { l with owed := rt } { s with rt := rt } :=
  ⟨rfl, h.wd, h.b, h.bids, ⟨h.queues.axi3, h.queues.axi4⟩⟩

theorem mem_bids_awHandshake {id : BitVec 32} (h : id ∈ s.bids) : id ∈ (s.awHandshake proto e).bids := by
  unfold Checker.awHandshake
  dsimp only
  split_ifs <;> simp [h]

theorem mem_bids_wHandshake {id : BitVec 32} (h : id ∈ s.bids) : id ∈ (s.wHandshake proto e).bids := by
  unfold Checker.wHandshake
  dsimp only
  split_ifs <;> simp [h]

theorem Counts.onAw (h : Counts proto l s) (hfair : proto = .axi3 → e.transfer .aw = true → e.awid ∈ s.wids → s.aw < s.wlast) :
    Counts proto (l.acceptAddr proto e) (s.on e .aw (Checker.awHandshake proto)) := by
  unfold Ledger.acceptAddr Ledger.given Checker.on
  cases htransfer : e.transfer .aw with
  | false =>
    simp only [Bool.false_eq_true, if_false, List.append_nil]
    exact h
  | true =>
    cases hdata : e.hasData proto with
    | false =>
      simp only [Bool.false_eq_true, if_false, if_true, List.append_nil]
      exact h.dataless hdata
    | true =>
      simp only [if_true, List.append_nil]
      by_cases hproto : proto = .axi3
      · subst hproto
        exact h.addr_axi3 hdata (hfair rfl htransfer)
      · exact h.addr_axi4 hproto hdata

theorem Counts.onW (h : Counts proto l s) (hfair : proto = .axi3 → e.transfer .w = true → e.wlast = true → e.wid ∈ s.awids → s.wlast < s.aw) :
    Counts proto
      { l with
        transferred := l.transferred ++ Ledger.given e .w [keyOf proto e.wid]
        lasts := l.lasts ++ Ledger.given e .w (if e.wlast = true then [e.wid] else []) }
      (s.on e .w (Checker.wHandshake proto)) := by
  unfold Ledger.given Checker.on
  cases htransfer : e.transfer .w with
  | false =>
    simp only [Bool.false_eq_true, if_false, List.append_nil]
    exact h
  | true =>
    simp only [if_true]
    cases hlast : e.wlast with
    | false =>
      have hbeat := h.beat hlast
      unfold Ledger.withBeat at hbeat
      rwa [hlast] at hbeat
    | true =>
      have hend : Counts proto (l.withBeat proto e) (s.wHandshake proto e) := by
        by_cases hproto : proto = .axi3
        · subst hproto
          exact h.last_axi3 hlast (hfair rfl htransfer hlast)
        · exact h.last_axi4 hproto hlast
      unfold Ledger.withBeat at hend
      rwa [hlast] at hend

theorem Counts.onB (h : Counts proto l s) (hlegal : e.transfer .b = true → e.bid ∈ s.bids) :
    Counts proto { l with answered := l.answered ++ Ledger.given e .b [e.bid] } (s.on e .b Checker.bHandshake) := by
  unfold Ledger.given Checker.on
  cases htransfer : e.transfer .b with
  | false =>
    simp only [Bool.false_eq_true, if_false, List.append_nil]
    exact h
  | true => exact h.response (hlegal htransfer)

theorem Counts.onAr (h : Counts proto l s) (hbeats : e.transfer .ar = true → e.readBeats proto = e.getArlen proto + 1) :
    Counts proto { l with owed := l.owed + if e.transfer .ar = true then e.readBeats proto else 0 } (s.on e .ar (Checker.arHandshake proto)) := by
  unfold Checker.on
  cases htransfer : e.transfer .ar with
  | false => exact h
  | true =>
    rw [if_pos rfl, if_pos rfl, hbeats htransfer, ← h.rt]
    exact h.read

theorem Counts.onR (h : Counts proto l s) :
    Counts proto { l with owed := l.owed - if e.transfer .r = true then 1 else 0 } (s.on e .r fun _ => Checker.rrHandshake) := by
  unfold Checker.on
  cases htransfer : e.transfer .r with
  | false => exact h
  | true =>
    rw [if_pos rfl, if_pos rfl, ← h.rt]
    exact h.read

theorem bids_readPart (proto : Protocol) (maxClks : ℕ) (e : Edge) (s : Checker) :
    (((s.monitor maxClks e).on e .ar (Checker.arHandshake proto)).on e .r fun _ => Checker.rrHandshake).bids = s.bids := by
  unfold Checker.on
  split <;> split <;> rfl

theorem mem_bids_toAw (proto : Protocol) (maxClks : ℕ) (e : Edge) {id : BitVec 32} (h : id ∈ s.bids) : id ∈ (s.toAw proto maxClks e).bids := by
  have hread : id ∈ (((s.monitor maxClks e).on e .ar (Checker.arHandshake proto)).on e .r fun _ => Checker.rrHandshake).bids := by
    rw [bids_readPart]
    exact h
  unfold Checker.toAw
  rw [Checker.on]
  split
  · exact mem_bids_awHandshake hread
  · exact hread

/-- **What an edge counts.** -/
theorem Counts.edge (h : Counts proto l s) (hb : e.transfer .b = true → 0 < l.unanswered proto e.bid)
    (hbeats : e.transfer .ar = true → e.readBeats proto = e.getArlen proto + 1)
    (hfree : proto = .axi3 → Unblocked proto l e) :
    Counts proto (l.accept proto maxClks e) (s.edge proto maxClks e) := by
  have hmonitor : Counts proto l (s.monitor maxClks e) := ⟨h.rt, h.wd, h.b, h.bids, ⟨h.queues.axi3, h.queues.axi4⟩⟩
  have hread := (hmonitor.onAr hbeats).onR (e := e)
  have htoAw : Counts proto _ (s.toAw proto maxClks e) := hread.onAw fun haxi3 htransfer hmem => by
    obtain ⟨-, hwids, haw, hwlast⟩ := hread.queues.open_perm haxi3
    rw [haw, hwlast]
    exact (hfree haxi3).addr htransfer (hwids.mem_iff.1 hmem)
  have hanswer : e.transfer .b = true → e.bid ∈ ((s.toAw proto maxClks e).on e .w (Checker.wHandshake proto)).bids := by
    intro htransfer
    have hid := h.bids e.bid
    have hpos := hb htransfer
    unfold Ledger.unanswered at hpos
    have hmem := mem_bids_toAw proto maxClks e (List.count_pos_iff.1 (by omega : 0 < s.bids.count e.bid))
    rw [Checker.on]
    split
    · exact mem_bids_wHandshake hmem
    · exact hmem
  have hlast := htoAw.onW (e := e) fun haxi3 htransfer hlast hmem => by
    obtain ⟨hawids, -, haw, hwlast⟩ := htoAw.queues.open_perm haxi3
    rw [haw, hwlast]
    exact (hfree haxi3).last htransfer hlast (hawids.mem_iff.1 hmem)
  have hend := hlast.onB hanswer
  exact ⟨hend.rt, hend.wd, hend.b, hend.bids, ⟨hend.queues.axi3, hend.queues.axi4⟩⟩

end Counting

end LibSystemCTLM.Axi.Handshakes
