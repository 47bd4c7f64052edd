import LibSystemCTLM.Axi.Axi2TlmInputs

/-!
# What one channel of `axi2tlm_bridge` takes from the other

What the transactions of a direction carry depends on the addresses and the beats it takes in, in their
order, and on nothing else the bridge does (`Front`). A payload is not issued before every byte of it has
been filled, and not touched afterwards, so two runs with the same inputs issue the same under each
serial.

The one input from the other channel is `arprot`. `independent_iff` says that the channels are independent
in two runs exactly if `arprot` tells secure from non-secure alike wherever the address of a write is taken
that both issue. Reads depend on no signal of the write channels.
-/

namespace LibSystemCTLM.Axi2Tlm

open Foundation Tlm
open Axi (Direction Channel)

variable {cfg : Config} {lockWidth : ℕ} {buf buf' : ℕ → Buffers} {dir : Direction}

/-! ### What a direction takes in -/

/-- What depends on the inputs of a direction alone. -/
structure Front where
  next : ℕ := 0
  dataList : List (Axi.Transaction × ℕ) := []
  txs : List Tx := []

/-- The front of a direction. -/
def Side.front (s : Side) : Front := ⟨s.ch.next, s.ch.dataList, s.txs⟩

/-- An input, next to what `arprot` is. -/
def sampled (dir : Direction) (a : Signals cfg × Event) : Option (Input cfg × BitVec 3) :=
  (a.2.input dir a.1).map fun i => (i, a.1.ar.axprot)

/-- A front takes an input. -/
def Front.take (cfg : Config) (lockWidth : ℕ) (buf : ℕ → Buffers) (dir : Direction) (f : Front) (i : Input cfg × BitVec 3) : Front :=
  match i.1 with
  | .address x =>
    { next := f.next + 1
      dataList := Channel.afterAddress cfg.proto dir (.ofPhase cfg.proto dir f.next x.order) f.dataList
      txs := f.txs ++ [Tx.ofSignals cfg lockWidth dir i.2 (buf f.next) x] }
  | .data wid w =>
    { next := f.next
      dataList := Channel.afterBeat cfg.proto wid f.dataList
      txs :=
        match f.dataList.find? (Channel.takesData cfg.proto wid) with
        | some (wt, _) => f.txs.modify wt.serial fun tx => { tx with tr := tx.tr.takeBeat cfg w }
        | none => f.txs }

/-- The front after a step. -/
def Front.after (cfg : Config) (lockWidth : ℕ) (buf : ℕ → Buffers) (dir : Direction) (f : Front) (a : Signals cfg × Event) : Front :=
  ((sampled dir a).map (f.take cfg lockWidth buf dir)).getD f

theorem front_step {s s' : Side} {a : Signals cfg × Event} (h : s.step cfg lockWidth buf dir a = some s') :
    s'.front = s.front.after cfg lockWidth buf dir a := by
  obtain ⟨ch, hch, rfl⟩ := Option.map_eq_some_iff.1 h
  obtain ⟨sig, e⟩ := a
  have hframe (ha : ∀ p, e.action dir sig ≠ .address p) (hd : ∀ wid, e.action dir sig ≠ .data wid) :
      ch.next = s.ch.next ∧ ch.dataList = s.ch.dataList :=
    ⟨(Channel.step_frame ha hd hch).1, (Channel.step_frame ha hd hch).2.1⟩
  cases e with
  | address =>
    obtain ⟨hn, hl, -⟩ := Channel.addressPhase_spec hch
    simp only [Side.front, hn, hl]
    rfl
  | data =>
    have hdata : s.ch.dataPhase cfg.proto sig.wid = some ch := by
      simp only [Event.action, Channel.step] at hch
      split at hch
      · exact hch
      · cases hch
    obtain ⟨hn, hl, -⟩ := Channel.dataPhase_spec hdata
    simp only [Side.front, hn, hl]
    rfl
  | start k | issue k | ret k | written k | respond | answer =>
    obtain ⟨hn, hl⟩ := hframe (by intro p hp; cases hp) (by intro p hp; cases hp)
    simp only [Side.front, hn, hl]
    rfl

theorem front_run {as : List (Signals cfg × Event)} {s s' : Side} (h : run (Side.step cfg lockWidth buf dir) s as = some s') :
    s'.front = (as.filterMap (sampled dir)).foldl (Front.take cfg lockWidth buf dir) s.front := by
  induction as generalizing s with
  | nil =>
    cases h
    rfl
  | cons a as ih =>
    obtain ⟨u, hu, hrest⟩ := Option.bind_eq_some_iff.1 h
    rw [ih hrest, front_step hu]
    unfold Front.after
    cases hs : sampled dir a with
    | none => rw [List.filterMap_cons_none hs]; rfl
    | some i => rw [List.filterMap_cons_some hs]; rfl

/-! ### The transactions that wait for data -/

/-- A transaction of `wrDataList` and its payload. -/
structure Holds (cfg : Config) (e : Axi.Transaction × ℕ) (tx : Tx) : Prop where
  beat : tx.tr.beat = e.2
  burstLen : tx.tr.burstLen = e.1.burstLen
  le : e.2 ≤ e.1.burstLen
  noData : e.1.hasData cfg.proto = false → tx.tr.gp.command ≠ .write

theorem Holds.takeBeat {e : Axi.Transaction × ℕ} {tx : Tx} (h : Holds cfg e tx) (w : Beat Byte) (hle : e.2 + 1 ≤ e.1.burstLen) :
    Holds cfg (e.1, e.2 + 1) { tx with tr := tx.tr.takeBeat cfg w } := by
  have hshape : (tx.tr.takeBeat cfg w).shape = tx.tr.shape.incBeat := Transaction.shape_takeBeat tx.tr w
  refine ⟨?_, ?_, hle, fun hd hc => h.noData hd ?_⟩
  · exact (congrArg (fun t => t.beat) hshape).trans (congrArg (· + 1) h.beat)
  · exact (congrArg (fun t => t.burstLen) hshape).trans h.burstLen
  · exact (congrArg (fun t => t.gp.command) hshape).symm.trans hc

namespace Front

variable {f f' : Front} {n : ℕ}

/-- Each transaction of `wrDataList` has a payload of its own. -/
structure Inv (cfg : Config) (f : Front) : Prop where
  length : f.txs.length = f.next
  nodup : (f.dataList.map fun e => e.1.serial).Nodup
  entries : ∀ e ∈ f.dataList, ∃ tx, f.txs[e.1.serial]? = some tx ∧ Holds cfg e tx

/-- A transaction that waits for no data; a write has all of it. -/
def Ready (f : Front) (n : ℕ) : Prop :=
  n ∉ f.dataList.map (fun e => e.1.serial) ∧ ∃ tx, f.txs[n]? = some tx ∧ (tx.tr.gp.command = .write → tx.tr.burstLen < tx.tr.beat)

theorem Inv.lt (h : f.Inv cfg) {e : Axi.Transaction × ℕ} (he : e ∈ f.dataList) : e.1.serial < f.next := by
  obtain ⟨tx, htx, -⟩ := h.entries e he
  exact h.length ▸ (List.getElem?_eq_some_iff.1 htx).1

theorem Inv.not_mem (h : f.Inv cfg) (hn : f.next ≤ n) : n ∉ f.dataList.map fun e => e.1.serial := by
  intro hc
  obtain ⟨e, he, rfl⟩ := List.mem_map.1 hc
  exact absurd (h.lt he) (Nat.not_lt.2 hn)

theorem Ready.lt (h : f.Inv cfg) (hr : f.Ready n) : n < f.next := by
  obtain ⟨-, tx, htx, -⟩ := hr
  exact h.length ▸ (List.getElem?_eq_some_iff.1 htx).1

theorem mem_afterAddress {tr : Axi.Transaction} {l : List (Axi.Transaction × ℕ)} {e : Axi.Transaction × ℕ}
    (h : e ∈ Channel.afterAddress cfg.proto dir tr l) : e ∈ l ∨ dir = .write ∧ e = (tr, 1) := by
  unfold Channel.afterAddress at h
  split at h
  · exact .inl h
  · split at h
    · exact .inl h
    · exact (List.mem_append.1 h).imp (fun h => h) fun h => ⟨rfl, List.mem_singleton.1 h⟩

theorem serials_perm (proto : Axi.Protocol) (wid : BitVec 32) (l : List (Axi.Transaction × ℕ)) :
    ((Channel.leaving proto wid l).map Axi.Transaction.serial ++ (Channel.afterBeat proto wid l).map fun e => e.1.serial).Perm
      (l.map fun e => e.1.serial) := by
  have h := (Channel.leaving_perm proto wid l).map Axi.Transaction.serial
  rwa [List.map_append, List.map_map, List.map_map] at h

/-- The payload of a transaction that waits for no data stays as it is. -/
theorem Ready.txs_take (h : f.Inv cfg) (hr : f.Ready n) (i : Input cfg × BitVec 3) :
    (f.take cfg lockWidth buf dir i).txs[n]? = f.txs[n]? := by
  obtain ⟨i, prot⟩ := i
  cases i with
  | address x => exact List.getElem?_append_left (h.length ▸ hr.lt h)
  | data wid w =>
    simp only [Front.take]
    split
    · rename_i wt beat hfind
      have hne : wt.serial ≠ n := fun hc => hr.1 (List.mem_map.2 ⟨(wt, beat), List.mem_of_find?_eq_some hfind, hc⟩)
      exact List.getElem?_modify_ne _ _ hne
    · rfl

theorem Ready.take (h : f.Inv cfg) (hr : f.Ready n) (i : Input cfg × BitVec 3) : (f.take cfg lockWidth buf dir i).Ready n := by
  refine ⟨?_, by rw [hr.txs_take h]; exact hr.2⟩
  obtain ⟨i, prot⟩ := i
  cases i with
  | address x =>
    intro hc
    obtain ⟨e, he, rfl⟩ := List.mem_map.1 hc
    rcases mem_afterAddress he with he | ⟨rfl, rfl⟩
    · exact hr.1 (List.mem_map_of_mem he)
    · exact absurd (hr.lt h) (Nat.lt_irrefl _)
  | data wid w => exact fun hc => hr.1 ((serials_perm cfg.proto wid f.dataList).subset (List.mem_append_right _ hc))

theorem Inv.taker (h : f.Inv cfg) {wid : BitVec 32} {wt : Axi.Transaction} {beat : ℕ}
    (hfind : f.dataList.find? (Channel.takesData cfg.proto wid) = some (wt, beat)) :
    ∃ tx, f.txs[wt.serial]? = some tx ∧ Holds cfg (wt, beat) tx :=
  h.entries _ (List.mem_of_find?_eq_some hfind)

/-- A write without data ignores its payload. -/
theorem command_ofSignals {x : AxSignals cfg} {prot : BitVec 3} {b : Buffers} (k : ℕ)
    (hd : dir = .write → (Axi.Transaction.ofPhase cfg.proto dir k x.order).hasData cfg.proto = false) :
    (Tx.ofSignals cfg lockWidth dir prot b x).tr.gp.command ≠ .write := by
  cases dir with
  | read =>
    simp only [Tx.ofSignals, Axi.Transaction.ofPhase, true_and]
    split <;> split <;> simp [Transaction.ofPhase, tlmCommand]
  | write =>
    have hno := hd rfl
    have hcmd : tlmCommand (Axi.Transaction.ofPhase cfg.proto .write 0 x.order).cmd = .ignore := by
      simp only [Axi.Transaction.hasData, Axi.Transaction.isEvict, Axi.Transaction.ofPhase] at hno ⊢
      cases hace : cfg.proto.isAce with
      | false => simp [hace] at hno
      | true =>
        cases hbar : decide (x.order.axbar ≠ 0) with
        | true => rfl
        | false =>
          cases hev : Axi.Transaction.isEvictSnoop x.order.axdomain x.order.awsnoop with
          | true => rfl
          | false =>
            have hzero : x.order.axbar = 0 := by simpa using hbar
            simp [hace, hzero, hev] at hno
    simp only [Tx.ofSignals, hcmd, reduceCtorEq, false_and, if_false, Transaction.ofPhase]
    exact Command.noConfusion

/-- The payload of the transaction that has a beat. -/
theorem txs_take_data {wid : BitVec 32} {w : Beat Byte} {prot : BitVec 3} {wt : Axi.Transaction} {beat : ℕ}
    (hfind : f.dataList.find? (Channel.takesData cfg.proto wid) = some (wt, beat)) :
    (f.take cfg lockWidth buf dir (.data wid w, prot)).txs = f.txs.modify wt.serial fun tx => { tx with tr := tx.tr.takeBeat cfg w } := by
  simp only [Front.take, hfind]

theorem Inv.take (h : f.Inv cfg) (i : Input cfg × BitVec 3) : (f.take cfg lockWidth buf dir i).Inv cfg := by
  obtain ⟨i, prot⟩ := i
  cases i with
  | address x =>
    refine ⟨?_, ?_, fun e he => ?_⟩
    · exact (List.length_append ..).trans (congrArg (· + 1) h.length)
    · change ((Channel.afterAddress cfg.proto dir _ f.dataList).map _).Nodup
      unfold Channel.afterAddress
      split
      · exact h.nodup
      · split
        · exact h.nodup
        · rw [List.map_append, List.nodup_append]
          refine ⟨h.nodup, List.nodup_singleton _, ?_⟩
          rintro a ha b hb rfl
          rw [List.map_singleton, List.mem_singleton] at hb
          exact h.not_mem (le_of_eq hb.symm) ha
    · rcases mem_afterAddress he with he | ⟨rfl, rfl⟩
      · obtain ⟨tx, htx, hh⟩ := h.entries e he
        exact ⟨tx, (List.getElem?_append_left (List.getElem?_eq_some_iff.1 htx).1).trans htx, hh⟩
      · refine ⟨Tx.ofSignals cfg lockWidth .write prot (buf f.next) x, ?_, ⟨?_, ?_, Nat.le_add_left 1 _, fun hd => ?_⟩⟩
        · change (f.txs ++ [_])[f.next]? = _
          rw [← h.length, List.getElem?_concat_length]
        · simp [Tx.ofSignals, Transaction.ofPhase]
        · simp [Tx.ofSignals, Transaction.ofPhase, Axi.Transaction.ofPhase, AxSignals.order]
        · exact command_ofSignals f.next fun _ => hd
  | data wid w =>
    have hperm := serials_perm cfg.proto wid f.dataList
    have hnodup := hperm.nodup_iff.2 h.nodup
    refine ⟨?_, (List.nodup_append.1 hnodup).2.1, fun e he => ?_⟩
    · simp only [Front.take]
      split
      · rw [List.length_modify]
        exact h.length
      · exact h.length
    · rcases Channel.of_mem_afterBeat he with ⟨hmem, hout⟩ | ⟨wt, beat, hfind, rfl, hle⟩
      · obtain ⟨tx, htx, hh⟩ := h.entries e hmem
        refine ⟨tx, ?_, hh⟩
        cases hfind : f.dataList.find? (Channel.takesData cfg.proto wid) with
        | none => simp only [Front.take, hfind, htx]
        | some e' =>
          obtain ⟨wt, beat⟩ := e'
          have hne : wt.serial ≠ e.1.serial := by
            intro hc
            have heq : e = (wt, beat) := List.inj_on_of_nodup_map h.nodup hmem (List.mem_of_find?_eq_some hfind) hc.symm
            exact (List.nodup_append.1 hnodup).2.2 _ (List.mem_map_of_mem (hout wt beat hfind (congrArg Prod.fst heq))) _
              (List.mem_map_of_mem he) hc
          rw [txs_take_data hfind, List.getElem?_modify_ne _ _ hne, htx]
      · obtain ⟨tx, htx, hh⟩ := h.taker hfind
        refine ⟨_, ?_, hh.takeBeat w hle⟩
        rw [txs_take_data hfind, List.getElem?_modify_eq, htx]
        rfl

/-- What leaves `wrDataList` waits for no more data. -/
theorem Inv.ready_leaving (h : f.Inv cfg) {wid : BitVec 32} {w : Beat Byte} {prot : BitVec 3} {t : Axi.Transaction}
    (ht : t ∈ Channel.leaving cfg.proto wid f.dataList) : (f.take cfg lockWidth buf dir (.data wid w, prot)).Ready t.serial := by
  have hperm := serials_perm cfg.proto wid f.dataList
  have hnodup := hperm.nodup_iff.2 h.nodup
  refine ⟨fun hc => (List.nodup_append.1 hnodup).2.2 _ (List.mem_map_of_mem ht) _ hc rfl, ?_⟩
  obtain ⟨e, he, rfl⟩ := List.mem_map.1 ((Channel.leaving_perm cfg.proto wid f.dataList).subset (List.mem_append_left _ ht))
  obtain ⟨tx, htx, hh⟩ := h.entries e he
  cases hfind : f.dataList.find? (Channel.takesData cfg.proto wid) with
  | none =>
    rw [Channel.leaving, hfind] at ht
    cases ht
  | some e' =>
    obtain ⟨wt, beat⟩ := e'
    rw [txs_take_data hfind, List.getElem?_modify, htx]
    refine ⟨_, rfl, ?_⟩
    have hshape : (tx.tr.takeBeat cfg w).shape = tx.tr.shape.incBeat := Transaction.shape_takeBeat tx.tr w
    have hbeat : (tx.tr.takeBeat cfg w).beat = tx.tr.beat + 1 := congrArg (fun t => t.beat) hshape
    have hburst : (tx.tr.takeBeat cfg w).burstLen = tx.tr.burstLen := congrArg (fun t => t.burstLen) hshape
    have hcmd : (tx.tr.takeBeat cfg w).gp.command = tx.tr.gp.command := congrArg (fun t => t.gp.command) hshape
    rcases Channel.of_mem_leaving ht with ⟨beat', hfind', hdone⟩ | hno
    · obtain ⟨rfl, rfl⟩ := Prod.mk.inj (Option.some.inj (hfind'.symm.trans hfind))
      have heq : e = (e.1, beat') := List.inj_on_of_nodup_map h.nodup he (List.mem_of_find?_eq_some hfind) rfl
      have hbeat' : e.2 = beat' := congrArg Prod.snd heq
      intro _
      simp only [if_true]
      rw [hbeat, hburst, hh.beat, hh.burstLen, hbeat']
      exact hdone
    · intro hc
      refine absurd ?_ (hh.noData hno)
      split at hc
      · exact hcmd.symm.trans hc
      · exact hc

end Front

/-! ### One run -/

/-- What holds in every state of a direction: what is or will be issued waits for no data, and what has
been issued is the payload as it still is. -/
structure Side.Inv (cfg : Config) (s : Side) : Prop where
  front : s.front.Inv cfg
  live : ∀ t, s.ch.Live t → s.front.Ready t.serial
  issues : ∀ i ∈ s.issues, s.front.Ready i.serial ∧ ∃ tx, s.txs[i.serial]? = some tx ∧ i = tx.issue i.serial

theorem Side.inv_init (cfg : Config) : ({} : Side).Inv cfg where
  front := ⟨rfl, List.nodup_nil, fun _ he => absurd he List.not_mem_nil⟩
  live _ ht := ht.elim (fun h => absurd h List.not_mem_nil) fun ⟨_, h, _⟩ => absurd h List.not_mem_nil
  issues _ hi := absurd hi List.not_mem_nil

/-- What becomes live in a step waits for no data. -/
theorem Side.Inv.live_step {s s' : Side} {a : Signals cfg × Event} (h : s.Inv cfg) (hs : s.step cfg lockWidth buf dir a = some s')
    {t : Axi.Transaction} (ht : s'.ch.Live t) : s.ch.Live t ∨ s'.front.Ready t.serial := by
  have hfront := front_step hs
  obtain ⟨ch, hch, rfl⟩ := Option.map_eq_some_iff.1 hs
  obtain ⟨sig, e⟩ := a
  cases e with
  | address =>
    rcases (Channel.addressPhase_spec hch).2.2 t ht with hl | ⟨rfl, hsame, hno⟩
    · exact .inl hl
    · have hserial : (Axi.Transaction.ofPhase cfg.proto dir s.ch.next (sig.ax dir).order).serial = s.ch.next := by cases dir <;> rfl
      refine .inr ⟨?_, Tx.ofSignals cfg lockWidth dir sig.ar.axprot (buf s.ch.next) (sig.ax dir), ?_, fun hc => ?_⟩
      · rw [hserial]
        change _ ∉ ch.dataList.map _
        rw [hsame]
        exact h.front.not_mem le_rfl
      · rw [hserial]
        change (s.txs ++ [_])[s.ch.next]? = _
        rw [← show s.txs.length = s.ch.next from h.front.length, List.getElem?_concat_length]
      · exact absurd hc (Front.command_ofSignals s.ch.next hno)
  | data =>
    have hdata : s.ch.dataPhase cfg.proto sig.wid = some ch := by
      simp only [Event.action, Channel.step] at hch
      split at hch
      · exact hch
      · cases hch
    rcases (Channel.dataPhase_spec hdata).2.2 t ht with hl | hout
    · exact .inl hl
    · right
      rw [hfront]
      change (s.front.take cfg lockWidth buf dir (.data sig.wid sig.w, sig.ar.axprot)).Ready t.serial
      exact h.front.ready_leaving hout
  | start k | issue k | ret k | written k | respond | answer =>
    exact .inl ((Channel.step_frame (by intro p hp; cases hp) (by intro p hp; cases hp) hch).2.2 t ht)

theorem Side.Inv.step {s s' : Side} {a : Signals cfg × Event} (h : s.Inv cfg) (hs : s.step cfg lockWidth buf dir a = some s') :
    s'.Inv cfg := by
  have hfront := front_step hs
  -- what waits for no data does not after the step, and its payload stays
  have hready {n : ℕ} (hr : s.front.Ready n) : s'.front.Ready n ∧ s'.txs[n]? = s.txs[n]? := by
    change s'.front.Ready n ∧ s'.front.txs[n]? = s.front.txs[n]?
    rw [hfront, Front.after]
    cases sampled dir a with
    | none => exact ⟨hr, rfl⟩
    | some i => exact ⟨hr.take h.front i, hr.txs_take h.front i⟩
  have hinv : s'.front.Inv cfg := by
    rw [hfront, Front.after]
    cases sampled dir a with
    | none => exact h.front
    | some i => exact h.front.take i
  refine ⟨hinv, fun t ht => ?_, fun i hi => ?_⟩
  · rcases h.live_step hs ht with hl | hr
    · exact (hready (h.live t hl)).1
    · exact hr
  · obtain ⟨ch, hch, rfl⟩ := Option.map_eq_some_iff.1 hs
    rcases List.mem_append.1 hi with hold | hnew
    · obtain ⟨hr, tx, htx, heq⟩ := h.issues i hold
      exact ⟨(hready hr).1, tx, (hready hr).2.trans htx, heq⟩
    · -- a thread that waits with a transaction issues it
      have hissued : s.issued a.2 = some i := Option.mem_toList.1 hnew
      unfold Side.issued at hissued
      split at hissued
      · rename_i k hk
        split at hissued
        · rename_i id tr hth
          obtain ⟨tx, htx, rfl⟩ := Option.map_eq_some_iff.1 hissued
          have hr : s.front.Ready tr.serial := h.live tr (.inr ⟨_, List.mem_of_getElem? hth, rfl⟩)
          exact ⟨(hready hr).1, tx, (hready hr).2.trans htx, rfl⟩
        · cases hissued
      · cases hissued

theorem Side.inv_of_run {as : List (Signals cfg × Event)} {s : Side} (h : run (Side.step cfg lockWidth buf dir) {} as = some s) : s.Inv cfg :=
  (reach_of_run h).invariant (Side.inv_init cfg) fun hi _ hs => hi.step hs

/-! ### Two runs -/

/-- What two runs make of the same inputs, whatever `arprot` and the memory are. -/
structure Front.Agree (cfg : Config) (f f' : Front) : Prop where
  next : f.next = f'.next
  dataList : f.dataList = f'.dataList
  txs : ∀ (n : ℕ) (tx tx' : Tx), f.txs[n]? = some tx → f'.txs[n]? = some tx' →
    { tx.genattr with secure := true } = { tx'.genattr with secure := true } ∧ tx.tr.Agree cfg tx'.tr

/-- The same signals make transactions that agree. -/
theorem agree_ofSignals (x : AxSignals cfg) (prot prot' : BitVec 3) (b b' : Buffers) :
    (Tx.ofSignals cfg lockWidth dir prot b x).tr.Agree cfg (Tx.ofSignals cfg lockWidth dir prot' b' x).tr := by
  cases dir with
  | read =>
    have hne : (Tx.ofSignals cfg lockWidth .read prot b x).tr.gp.command ≠ .write := Front.command_ofSignals 0 nofun
    refine ⟨?_, fun hc => absurd hc hne, fun hc => absurd hc hne⟩
    simp only [Tx.ofSignals]
    split <;> rfl
  | write =>
    simp only [Tx.ofSignals, reduceCtorEq, false_and, if_false]
    exact Transaction.agree_ofPhase _ _ (fun _ => rfl) b b' x.toAddressPhase

theorem genattr_ofSignals (x : AxSignals cfg) (prot prot' : BitVec 3) :
    { Attributes.ofSignals cfg lockWidth dir prot x with secure := true } =
      { Attributes.ofSignals cfg lockWidth dir prot' x with secure := true } := by
  unfold Attributes.ofSignals
  simp only
  split <;> rfl

/-- The same input keeps them in agreement. -/
theorem Front.Agree.take {f f' : Front} (h : f.Agree cfg f') (hi : f.Inv cfg) (hi' : f'.Inv cfg) (i : Input cfg) (prot prot' : BitVec 3) :
    (f.take cfg lockWidth buf dir (i, prot)).Agree cfg (f'.take cfg lockWidth buf' dir (i, prot')) := by
  cases i with
  | address x =>
    refine ⟨congrArg (· + 1) h.next, ?_, fun n tx tx' htx htx' => ?_⟩
    · simp only [Front.take, h.next, h.dataList]
    · simp only [Front.take] at htx htx'
      have hlen : f.txs.length = f'.txs.length := by rw [hi.length, hi'.length, h.next]
      rcases Nat.lt_or_ge n f.txs.length with hlt | hge
      · rw [List.getElem?_append_left hlt] at htx
        rw [List.getElem?_append_left (hlen ▸ hlt)] at htx'
        exact h.txs n tx tx' htx htx'
      · rw [List.getElem?_append_right hge, List.getElem?_singleton] at htx
        rw [List.getElem?_append_right (hlen ▸ hge), List.getElem?_singleton] at htx'
        split at htx
        · split at htx'
          · cases htx
            cases htx'
            exact ⟨genattr_ofSignals x prot prot', agree_ofSignals x prot prot' _ _⟩
          · cases htx'
        · cases htx
  | data wid w =>
    cases hfind : f.dataList.find? (Channel.takesData cfg.proto wid) with
    | none =>
      have hfind' : f'.dataList.find? (Channel.takesData cfg.proto wid) = none := h.dataList ▸ hfind
      refine ⟨h.next, congrArg (Channel.afterBeat cfg.proto wid) h.dataList, fun n tx tx' htx htx' => h.txs n tx tx' ?_ ?_⟩
      · simpa only [Front.take, hfind] using htx
      · simpa only [Front.take, hfind'] using htx'
    | some e =>
      obtain ⟨wt, beat⟩ := e
      have hfind' : f'.dataList.find? (Channel.takesData cfg.proto wid) = some (wt, beat) := h.dataList ▸ hfind
      refine ⟨h.next, congrArg (Channel.afterBeat cfg.proto wid) h.dataList, fun n tx tx' htx htx' => ?_⟩
      rw [txs_take_data hfind] at htx
      rw [txs_take_data hfind'] at htx'
      by_cases hn : wt.serial = n
      · subst hn
        rw [List.getElem?_modify_eq] at htx htx'
        obtain ⟨u, hu, rfl⟩ := Option.map_eq_some_iff.1 htx
        obtain ⟨u', hu', rfl⟩ := Option.map_eq_some_iff.1 htx'
        obtain ⟨hattr, hagree⟩ := h.txs _ u u' hu hu'
        obtain ⟨v, hv, hh⟩ := hi.taker hfind
        obtain rfl := Option.some.inj (hu.symm.trans hv)
        have hle : u.tr.beat ≤ u.tr.burstLen := by
          rw [hh.beat, hh.burstLen]
          exact hh.le
        exact ⟨hattr, hagree.takeBeat hle w⟩
      · rw [List.getElem?_modify_ne _ _ hn] at htx htx'
        exact h.txs n tx tx' htx htx'

theorem Front.Agree.foldl {f f' : Front} (h : f.Agree cfg f') (hi : f.Inv cfg) (hi' : f'.Inv cfg) {is is' : List (Input cfg × BitVec 3)}
    (his : is.map Prod.fst = is'.map Prod.fst) :
    (is.foldl (Front.take cfg lockWidth buf dir) f).Agree cfg (is'.foldl (Front.take cfg lockWidth buf' dir) f') := by
  induction is generalizing f f' is' with
  | nil =>
    obtain rfl := List.map_eq_nil_iff.1 his.symm
    exact h
  | cons i is ih =>
    obtain ⟨i', is', rfl, hhead, htail⟩ := List.map_eq_cons_iff.1 his.symm
    obtain ⟨i, prot⟩ := i
    obtain ⟨i', prot'⟩ := i'
    obtain rfl : i' = i := hhead
    exact ih (h.take hi hi' i' prot prot') (hi.take _) (hi'.take _) htail.symm

/-! ### The protection bits -/

/-- What `arprot` is when an address is taken. -/
def protOf (i : Input cfg × BitVec 3) : Option (BitVec 3) :=
  match i.1 with
  | .address _ => some i.2
  | .data _ _ => none

/-- A transaction is secure if `arprot` says so. -/
theorem secure_ofSignals (x : AxSignals cfg) (prot : BitVec 3) (b : Buffers) :
    (Tx.ofSignals cfg lockWidth dir prot b x).genattr.secure = !isNonSecure prot := by
  simp only [Tx.ofSignals, Attributes.ofSignals]
  split <;> rfl

theorem secures_foldl (is : List (Input cfg × BitVec 3)) (f : Front) :
    (is.foldl (Front.take cfg lockWidth buf dir) f).txs.map (fun tx => tx.genattr.secure) =
      f.txs.map (fun tx => tx.genattr.secure) ++ (is.filterMap protOf).map fun prot => !isNonSecure prot := by
  induction is generalizing f with
  | nil => simp
  | cons i is ih =>
    obtain ⟨i, prot⟩ := i
    rw [List.foldl_cons, ih]
    cases i with
    | address x =>
      rw [List.filterMap_cons_some (show protOf (Input.address x, prot) = some prot from rfl)]
      simp only [Front.take, List.map_append, List.map_cons, List.map_nil, secure_ofSignals, List.append_assoc, List.singleton_append]
    | data wid w =>
      rw [List.filterMap_cons_none (show protOf (Input.data wid w, prot) = none from rfl)]
      congr 1
      simp only [Front.take]
      split
      · refine List.ext_getElem? fun n => ?_
        rw [List.getElem?_map, List.getElem?_map, List.getElem?_modify]
        cases f.txs[n]? with
        | none => rfl
        | some tx =>
          simp only [Option.map_eq_map, Option.map_some]
          split <;> rfl
      · rfl

/-! ### The two directions -/

variable {as as₁ as₂ : List (Direction × Signals cfg × Event)} {mem mem₁ mem₂ : Direction → ℕ → Buffers} {s s' s₁ s₂ : Bridge}

theorem run_side (h : run (Bridge.step cfg lockWidth mem) s as = some s') (dir : Direction) :
    run (Side.step cfg lockWidth (mem dir) dir) (s dir) (stepsOf dir as) = some (s' dir) := by
  induction as generalizing s with
  | nil =>
    cases h
    rfl
  | cons a as ih =>
    obtain ⟨u, hu, hrest⟩ := Option.bind_eq_some_iff.1 h
    obtain ⟨side, hside, rfl⟩ := Option.map_eq_some_iff.1 hu
    have hu' := ih hrest
    by_cases hd : a.1 = dir
    · subst hd
      rw [Function.update_self] at hu'
      have hsteps : stepsOf a.1 (a :: as) = a.2 :: stepsOf a.1 as := List.filterMap_cons_some (if_pos rfl)
      rw [hsteps, run, hside]
      exact hu'
    · rw [Function.update_of_ne (Ne.symm hd)] at hu'
      have hsteps : stepsOf dir (a :: as) = stepsOf dir as := List.filterMap_cons_none (if_neg hd)
      rw [hsteps]
      exact hu'

theorem inputs_eq (dir : Direction) (as : List (Direction × Signals cfg × Event)) :
    inputs dir as = ((stepsOf dir as).filterMap (sampled dir)).map Prod.fst := by
  rw [inputs, List.map_filterMap]
  refine List.filterMap_congr fun a _ => ?_
  rw [sampled, Option.map_map]
  exact (Option.map_id' ..).symm

theorem arprots_eq (dir : Direction) (as : List (Direction × Signals cfg × Event)) :
    arprots dir as = ((stepsOf dir as).filterMap (sampled dir)).filterMap protOf := by
  rw [arprots, List.filterMap_filterMap]
  refine List.filterMap_congr fun a _ => ?_
  obtain ⟨sig, e⟩ := a
  cases e <;> rfl

/-- Transactions that agree are issued alike, up to how secure they are. -/
theorem issue_eq_iff {tx tx' : Tx} (hattr : { tx.genattr with secure := true } = { tx'.genattr with secure := true })
    (hagree : tx.tr.Agree cfg tx'.tr) (hready : tx.tr.gp.command = .write → tx.tr.burstLen < tx.tr.beat) (n : ℕ) :
    tx.issue n = tx'.issue n ↔ tx.genattr.secure = tx'.genattr.secure := by
  refine ⟨fun h => congrArg (fun i => i.genattr.secure) h, fun h => ?_⟩
  have hgenattr : tx.genattr = tx'.genattr := by
    calc tx.genattr = { ({ tx.genattr with secure := true } : Attributes) with secure := tx.genattr.secure } := rfl
      _ = { ({ tx'.genattr with secure := true } : Attributes) with secure := tx'.genattr.secure } := by rw [hattr, h]
      _ = tx'.genattr := rfl
  have hcmd : tx.tr.gp.command = tx'.tr.gp.command := congrArg (fun t => t.gp.command) hagree.shape
  have haddr : tx.tr.gp.address = tx'.tr.gp.address := congrArg (fun t => t.gp.address) hagree.shape
  have hlen : tx.tr.gp.dataLength = tx'.tr.gp.dataLength := congrArg (fun t => t.gp.dataLength) hagree.shape
  have hstream : tx.tr.gp.streamingWidth = tx'.tr.gp.streamingWidth := congrArg (fun t => t.gp.streamingWidth) hagree.shape
  have hbytes : (if tx.tr.gp.command = .write then tx.tr.gp.writes else []) = if tx'.tr.gp.command = .write then tx'.tr.gp.writes else [] := by
    rw [← hcmd]
    split
    · rename_i hw
      exact hagree.writes hw (hready hw)
    · rfl
  simp only [Tx.issue, hgenattr, hcmd, haddr, hlen, hstream, Issue.mk.injEq, true_and]
  rwa [hcmd] at hbytes

/-- The protection bits of a transaction are those of `arprot`. -/
theorem secure_of_run (h : run (Bridge.step cfg lockWidth mem) Bridge.init as = some s) {dir : Direction} {n : ℕ} {tx : Tx}
    (htx : (s dir).txs[n]? = some tx) : (arprots dir as)[n]?.map isNonSecure = some (!tx.genattr.secure) := by
  have hfront := front_run (run_side h dir)
  have hsecures := congrArg (fun f => f.txs.map fun tx => tx.genattr.secure) hfront
  simp only [secures_foldl] at hsecures
  rw [← arprots_eq] at hsecures
  have hn := congrArg (fun l => l[n]?) hsecures
  simp only [Side.front, Bridge.init, List.map_nil, List.nil_append, List.getElem?_map, htx, Option.map_some] at hn
  cases hp : (arprots dir as)[n]? with
  | none =>
    rw [hp] at hn
    cases hn
  | some prot =>
    rw [hp] at hn
    rw [Option.map_some, Option.some.inj hn, Bool.not_not]

/-- **The transactions of a serial agree in all but how secure `arprot` says they are.** -/
theorem issues_eq_iff (h₁ : run (Bridge.step cfg lockWidth mem₁) Bridge.init as₁ = some s₁)
    (h₂ : run (Bridge.step cfg lockWidth mem₂) Bridge.init as₂ = some s₂) {dir : Direction} (hin : inputs dir as₁ = inputs dir as₂)
    {i j : Issue} (hi : i ∈ (s₁ dir).issues) (hj : j ∈ (s₂ dir).issues) (hserial : i.serial = j.serial) :
    i = j ↔ (arprots dir as₁)[i.serial]?.map isNonSecure = (arprots dir as₂)[i.serial]?.map isNonSecure := by
  have hinit : ({} : Side).front.Agree cfg ({} : Side).front := ⟨rfl, rfl, fun n tx tx' htx => by cases htx⟩
  have hagree : (s₁ dir).front.Agree cfg (s₂ dir).front := by
    rw [front_run (run_side h₁ dir), front_run (run_side h₂ dir)]
    exact hinit.foldl (Side.inv_init cfg).front (Side.inv_init cfg).front (by rw [← inputs_eq, ← inputs_eq, hin])
  obtain ⟨⟨-, u, hu, hready⟩, tx, htx, hitx⟩ := (Side.inv_of_run (run_side h₁ dir)).issues i hi
  obtain ⟨-, tx', htx', hjtx⟩ := (Side.inv_of_run (run_side h₂ dir)).issues j hj
  obtain rfl : u = tx := Option.some.inj (hu.symm.trans htx)
  rw [← hserial] at htx' hjtx
  obtain ⟨hattr, htr⟩ := hagree.txs i.serial u tx' htx htx'
  rw [secure_of_run h₁ htx, secure_of_run h₂ htx', Option.some.injEq, Bool.not_inj_iff, ← issue_eq_iff hattr htr hready i.serial, ← hitx,
    ← hjtx]

/-- For reads `arprot` is an input of the channel itself. -/
theorem arprots_read (as : List (Direction × Signals cfg × Event)) :
    arprots .read as = (inputs .read as).filterMap fun i =>
      match i with
      | .address x => some x.axprot
      | .data _ _ => none := by
  rw [arprots, inputs, List.filterMap_filterMap]
  refine List.filterMap_congr fun a _ => ?_
  obtain ⟨sig, e⟩ := a
  cases e <;> rfl

/-- **The channels of two runs are independent exactly if `arprot` tells secure from non-secure alike
where the address of a write is taken that both runs issue.** -/
theorem independent_iff (h₁ : run (Bridge.step cfg lockWidth mem₁) Bridge.init as₁ = some s₁)
    (h₂ : run (Bridge.step cfg lockWidth mem₂) Bridge.init as₂ = some s₂) :
    Independent as₁ as₂ s₁ s₂ ↔
      (inputs .write as₁ = inputs .write as₂ → ∀ i ∈ (s₁ .write).issues, ∀ j ∈ (s₂ .write).issues, i.serial = j.serial →
        (arprots .write as₁)[i.serial]?.map isNonSecure = (arprots .write as₂)[i.serial]?.map isNonSecure) := by
  constructor
  · intro h hin i hi j hj hserial
    exact (issues_eq_iff h₁ h₂ hin hi hj hserial).1 (h.write hin i hi j hj hserial)
  · intro h
    refine ⟨fun hin i hi j hj hserial => ?_, fun hin i hi j hj hserial => ?_⟩
    · exact (issues_eq_iff h₁ h₂ hin hi hj hserial).2 (h hin i hi j hj hserial)
    · refine (issues_eq_iff h₁ h₂ hin hi hj hserial).2 ?_
      rw [arprots_read, arprots_read, hin]

/-! ### A write while the read channel is secure, and while it is not -/

/-- A bus of four bytes under AXI4. -/
def wordBus : Config := { busBits := 2, busBits_le := two_le_seven, proto := .axi4 }

theorem two_le_busBits : 2 ≤ wordBus.busBits := le_rfl

/-- One word at an address. -/
def wordAt (address : Addr) (axprot : BitVec 3) : AxSignals wordBus :=
  { burstType := .incr, address := address, axsize := 2, axlen := 0, axsize_le := two_le_busBits, axlen_lt := by decide, axid := 1, axprot := axprot }

/-- A secure write of a word, which is issued, while the read channel has these protection bits. -/
def wordWrite (arprot : BitVec 3) : List (Direction × Signals wordBus × Event) :=
  [.address, .data, .start 0, .issue 0].map fun e =>
    (.write, { aw := wordAt 0x1000 0, wid := 1, w := ⟨fun _ => 0x5a, fun _ => true⟩, ar := wordAt 0x2000 arprot }, e)

/-- The bridge after it. -/
def afterWordWrite (arprot : BitVec 3) : Bridge :=
  (run (Bridge.step wordBus 1 fun _ _ => ⟨fun _ => 0, fun _ => 0⟩) Bridge.init (wordWrite arprot)).getD Bridge.init

theorem run_wordWrite (arprot : BitVec 3) :
    run (Bridge.step wordBus 1 fun _ _ => ⟨fun _ => 0, fun _ => 0⟩) Bridge.init (wordWrite arprot) = some (afterWordWrite arprot) := rfl

theorem issues_wordWrite (arprot : BitVec 3) :
    (afterWordWrite arprot .write).issues.map (fun i => (i.serial, i.genattr.secure)) = [(0, !isNonSecure arprot)] := rfl

theorem independent_wordWrite : Independent (wordWrite 0) (wordWrite 4) (afterWordWrite 0) (afterWordWrite 4) := by
  refine (independent_iff (run_wordWrite 0) (run_wordWrite 4)).2 fun _ i hi j hj _ => ?_
  have hserial : i.serial = 0 := by
    have hmem := List.mem_map_of_mem (f := fun i : Issue => (i.serial, i.genattr.secure)) hi
    rw [issues_wordWrite, List.mem_singleton] at hmem
    exact congrArg Prod.fst hmem
  rw [hserial]
  rfl

/-- `arprot` makes a write non-secure whose own channel says that it is secure. -/
theorem not_independent :
    ∃ s₁ s₂, run (Bridge.step wordBus 1 fun _ _ => ⟨fun _ => 0, fun _ => 0⟩) Bridge.init (wordWrite 0) = some s₁ ∧
      run (Bridge.step wordBus 1 fun _ _ => ⟨fun _ => 0, fun _ => 0⟩) Bridge.init (wordWrite 2) = some s₂ ∧
      inputs .write (wordWrite 0) = inputs .write (wordWrite 2) ∧ ¬Independent (wordWrite 0) (wordWrite 2) s₁ s₂ := by
  refine ⟨_, _, run_wordWrite 0, run_wordWrite 2, rfl, fun h => ?_⟩
  obtain ⟨i, hi, hi'⟩ := List.mem_map.1 ((issues_wordWrite 0).symm ▸ List.mem_singleton_self (0, !isNonSecure 0))
  obtain ⟨j, hj, hj'⟩ := List.mem_map.1 ((issues_wordWrite 2).symm ▸ List.mem_singleton_self (0, !isNonSecure 2))
  have hserial : i.serial = j.serial := (congrArg Prod.fst hi').trans (congrArg Prod.fst hj').symm
  have heq : i = j := h.write rfl i hi j hj hserial
  have hsecure : (!isNonSecure 0) = !isNonSecure 2 :=
    (congrArg Prod.snd hi').symm.trans ((congrArg (fun i => i.genattr.secure) heq).trans (congrArg Prod.snd hj'))
  exact absurd hsecure (by decide)

end LibSystemCTLM.Axi2Tlm
