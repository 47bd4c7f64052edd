import LibSystemCTLM.Axi.AxisBridges

/-!
# The stream between the bridges

What has come to the first bridge and what the second has sent on are compared as streams of bytes with a
mark behind the last byte of a packet (`events`). What was sent is what was delivered, what is in the
buffer, the lanes that are still to be taken, and what is left of the payload (`Conserved`).

This is kept in runs in which no beat is on the bus while the target runs, the bus still shows the flit when
the loop over its lanes goes on, and no packet is under way when `resetn` goes low (`delivered_of_run`).
-/

namespace LibSystemCTLM.Axis

open Foundation Tlm

/-! ### Events -/

/-- A packet ends here, if it has begun. -/
def mark (l : List (Option Byte)) : List (Option Byte) :=
  match l.getLast? with
  | some (some _) => l ++ [none]
  | _ => l

/-- Bytes, and the end of the packet behind them. -/
def feed (l : List (Option Byte)) (data : List Byte) (last : Bool) : List (Option Byte) :=
  if last = true then mark (l ++ data.map some) else l ++ data.map some

/-- The bytes of payloads, with a mark behind the last of each packet. -/
def events (l : List Payload) : List (Option Byte) := l.foldl (fun l p => feed l p.data p.eop) []

theorem feed_append (l : List (Option Byte)) (a b : List Byte) (last : Bool) : feed (feed l a false) b last = feed l (a ++ b) last := by
  unfold feed
  rw [if_neg Bool.false_ne_true, List.map_append, List.append_assoc]

theorem feed_nil (l : List (Option Byte)) : feed l [] false = l := by
  rw [feed, if_neg Bool.false_ne_true, List.map_nil, List.append_nil]

theorem mark_concat_none (l : List (Option Byte)) : mark (l ++ [none]) = l ++ [none] := by
  rw [mark, List.getLast?_concat]

theorem mark_mark (l : List (Option Byte)) : mark (mark l) = mark l := by
  cases h : l.getLast? with
  | none =>
    have hself : mark l = l := by rw [mark, h]
    rw [hself, hself]
  | some e =>
    cases e with
    | none =>
      have hself : mark l = l := by rw [mark, h]
      rw [hself, hself]
    | some b =>
      have hmark : mark l = l ++ [none] := by rw [mark, h]
      rw [hmark, mark_concat_none]

theorem feed_feed_nil (l : List (Option Byte)) (data : List Byte) (last : Bool) : feed (feed l data last) [] last = feed l data last := by
  cases last with
  | false => rw [feed_nil]
  | true =>
    simp only [feed, if_true, List.map_nil, List.append_nil]
    rw [mark_mark]

theorem feed_concat (l : List (Option Byte)) (buf : List Byte) (b : Byte) (data : List Byte) (last : Bool) :
    feed (l ++ (buf ++ [b]).map some) data last = feed (l ++ buf.map some) (b :: data) last := by
  simp only [feed, List.map_append, List.map_cons, List.map_nil, List.append_assoc, List.singleton_append]

theorem events_append (l : List Payload) (p : Payload) : events (l ++ [p]) = feed (events l) p.data p.eop := by
  rw [events, List.foldl_append]
  rfl

/-! ### What is asked -/

namespace State

variable (s : State)

/-- What was delivered and what is in the buffer. -/
def collected : List (Option Byte) := events s.out ++ s.buf.map some

/-- What is left of the flit that is taken. -/
def withFlit : List (Option Byte) :=
  match s.rx with
  | .calling (some loop) | .delaying (some loop) => feed s.collected (loop.flit.drop loop.lane) loop.tlast
  | _ => s.collected

/-- What is left of the payload that is sent. -/
def withPayload : List (Option Byte) :=
  match s.tx with
  | .sending p pos => feed s.withFlit (s.tdata ++ p.data.drop pos) p.eop
  | .idle => s.withFlit

/-- No byte is lost, repeated or invented, and no end of a packet. -/
def Conserved : Prop := s.withPayload = events s.sent

/-- What is sent on is what came, as far as it got, and all of it that is not in the buffer when nothing is
under way. Every payload sent on has a byte, so its `eop` is the mark of its last one. -/
structure Delivered : Prop where
  sent : events s.out <+: events s.sent
  bytes : ∀ p ∈ s.out, p.data ≠ []
  all : s.tx = .idle → s.rx = .ready → events s.out ++ s.buf.map some = events s.sent

/-- A payload is being sent. -/
def isSending : Bool :=
  match s.tx with
  | .idle => false
  | .sending _ _ => true

end State

/-- A beat is on the bus at an edge only when the receiver samples it or has `tready` low, and one that ends a
packet without a byte comes before the packet's bytes are delivered. The reset comes between packets. The
bus shows the rest of the flit when the loop over it goes on. -/
def Fair (s : State) : Act → Prop
  | .edge => s.isSending = true → s.resetn = true ∧
      match s.rx with
      | .ready => s.tdata = [] → s.tlast = true → s.buf = [] → mark s.collected = s.collected
      | .delaying _ => True
      | _ => False
  | .assertReset => s.isSending = false ∧ s.buf = []
  | .delayEnds =>
      match s.rx with
      | .delaying (some loop) => s.tdata.drop loop.lane = loop.flit.drop loop.lane ∧ (loop.flit.drop loop.lane ≠ [] → s.tlast = loop.tlast)
      | _ => True
  | _ => True

/-! ### The loop over the lanes -/

open State

/-- The loop takes the lanes: all, or up to the one that fills the buffer. -/
theorem lanes_spec (tlast : Bool) (lastByte : ℕ) {i : ℕ} {l buf : List Byte} {d : List (Option Byte)} (hbuf : buf.length < maxData)
    (hlast : l ≠ [] → lastByte + 1 = i + l.length) (hend : l = [] → tlast = true → buf = [] → mark d = d) :
    match lanes tlast lastByte l i buf with
    | (buf', none) => buf'.length < maxData ∧ d ++ buf'.map some = feed (d ++ buf.map some) l tlast
    | (buf', some (eop, none)) => 0 < buf'.length ∧ feed d buf' eop = feed (d ++ buf.map some) l tlast
    | (buf', some (eop, some next)) =>
      0 < buf'.length ∧ i < next ∧ feed (feed d buf' eop) (l.drop (next - i)) tlast = feed (d ++ buf.map some) l tlast ∧
        (l.drop (next - i) = [] → tlast = true → eop = true) := by
  induction l generalizing i buf with
  | nil =>
    unfold lanes
    by_cases hflush : tlast = true ∧ 0 < buf.length
    · rw [if_pos hflush]
      obtain ⟨rfl, hpos⟩ := hflush
      refine ⟨hpos, ?_⟩
      simp only [feed, if_true, List.map_nil, List.append_nil]
    · rw [if_neg hflush]
      refine ⟨hbuf, ?_⟩
      cases tlast with
      | false => rw [feed_nil]
      | true =>
        have hempty : buf = [] := List.eq_nil_of_length_eq_zero (Nat.eq_zero_of_not_pos fun hpos => hflush ⟨rfl, hpos⟩)
        subst hempty
        simp only [feed, if_true, List.map_nil, List.append_nil]
        exact (hend rfl rfl rfl).symm
  | cons b l ih =>
    have hend' := hlast (List.cons_ne_nil b l)
    rw [List.length_cons] at hend'
    unfold lanes
    by_cases hfull : (buf ++ [b]).length = maxData
    · rw [if_pos hfull]
      refine ⟨by rw [hfull]; decide, Nat.lt_succ_self i, ?_, ?_⟩
      · have hdrop : (b :: l).drop (i + 1 - i) = l := by
          rw [Nat.add_sub_cancel_left]
          rfl
        have hwhole : feed d (buf ++ [b]) tlast = feed (d ++ buf.map some) [b] tlast := by
          rw [← feed_concat, feed, feed, List.map_nil, List.append_nil]
        rw [hdrop]
        cases l with
        | nil =>
          rw [decide_eq_true (by rw [List.length_nil] at hend'; omega), Bool.and_true, feed_feed_nil, hwhole]
        | cons b' l =>
          rw [decide_eq_false (by rw [List.length_cons] at hend'; omega), Bool.and_false, feed_append, ← feed_concat]
          simp only [feed, List.map_append, List.append_assoc]
      · rintro hnil rfl
        rw [Nat.add_sub_cancel_left] at hnil
        have hl : l = [] := hnil
        subst hl
        rw [decide_eq_true (by rw [List.length_nil] at hend'; omega), Bool.and_true]
    · rw [if_neg hfull]
      have hlt : (buf ++ [b]).length < maxData := by
        have hone : (buf ++ [b]).length = buf.length + 1 := List.length_append
        omega
      have hrest := ih (i := i + 1) hlt (fun _ => by omega) (fun _ _ hnil => absurd hnil (List.append_ne_nil_of_right_ne_nil buf (List.cons_ne_nil b [])))
      rw [feed_concat] at hrest
      split at hrest
      · exact hrest
      · exact hrest
      · obtain ⟨hpos, hnext, hfeed, heop⟩ := hrest
        rename_i next _
        have hdrop : (b :: l).drop (next - i) = l.drop (next - (i + 1)) := by
          have hsucc : next - i = next - (i + 1) + 1 := by omega
          rw [hsucc, List.drop_succ_cons]
        rw [hdrop]
        exact ⟨hpos, by omega, hfeed, heop⟩

/-! ### What a run keeps -/

/-- The signals are those of the payload that is sent. -/
structure OnBus (s : State) : Prop where
  idle : s.tx = .idle → s.tvalid = false ∧ s.tlast = false
  sending {p : Payload} {pos : ℕ} : s.tx = .sending p pos →
    s.tvalid = true ∧ pos ≤ p.data.length ∧ s.tlast = (decide (pos = p.data.length) && p.eop)

/-- A loop that goes on: it is at the flit's last byte or knows where that is. -/
structure Loop.Sound (k : Loop) (s : State) : Prop where
  lastByte : k.flit.drop k.lane ≠ [] → k.lastByte + 1 = k.flit.length
  ended : k.flit.drop k.lane = [] → k.tlast = true → mark s.collected = s.collected

/-- `axis_thread` waits for an edge. -/
def Receiver.AtRest : Receiver → Prop
  | .ready | .inReset => True
  | .calling _ | .delaying _ => False

/-- The buffer has room, and is empty while the target has its bytes. -/
structure Taking (s : State) : Prop where
  room : s.buf.length < maxData
  calling {loop : Option Loop} : s.rx = .calling loop ∨ s.rx = .delaying loop → s.buf = []
  loop {k : Loop} : s.rx = .calling (some k) ∨ s.rx = .delaying (some k) → k.Sound s
  bytes : ∀ p ∈ s.out, p.data ≠ []

section

variable {s s' : State}

theorem taking_of_ready (hroom : s.buf.length < maxData) (hrx : s.rx = .ready) (hbytes : ∀ p ∈ s.out, p.data ≠ []) : Taking s := by
  refine ⟨hroom, fun {loop} h => ?_, fun {k} h => ?_, hbytes⟩
  · rw [hrx] at h
    exact (h.elim nofun nofun : False).elim
  · rw [hrx] at h
    exact (h.elim nofun nofun : False).elim

theorem OnBus.of_eq (h : OnBus s) (htx : s'.tx = s.tx) (hvalid : s'.tvalid = s.tvalid) (hlast : s'.tlast = s.tlast) : OnBus s' := by
  refine ⟨fun hidle => ?_, fun hsending => ?_⟩
  · rw [hvalid, hlast]
    exact h.idle (htx.symm.trans hidle)
  · rw [hvalid, hlast]
    exact h.sending (htx.symm.trans hsending)

theorem Taking.of_eq (h : Taking s) (hbuf : s'.buf = s.buf) (hout : s'.out = s.out) (hrx : s'.rx = s.rx) : Taking s' := by
  have hcollected : s'.collected = s.collected := by rw [State.collected, State.collected, hbuf, hout]
  refine ⟨hbuf ▸ h.room, fun {loop} hc => ?_, fun {k} hc => ?_, ?_⟩
  · rw [hrx] at hc
    exact hbuf.trans (h.calling hc)
  · rw [hrx] at hc
    exact ⟨(h.loop hc).lastByte, hcollected ▸ (h.loop hc).ended⟩
  · rw [hout]
    exact h.bytes

end

namespace State

variable {bus : ℕ} {s s' : State}

theorem bytes_concat {l : List Payload} {buf : List Byte} {eop : Bool} (h : ∀ p ∈ l, p.data ≠ []) (hpos : 0 < buf.length) :
    ∀ p ∈ l ++ [⟨buf, eop⟩], p.data ≠ [] := by
  intro p hp
  rcases List.mem_append.1 hp with hp | hp
  · exact h p hp
  · rw [List.mem_singleton.1 hp]
    exact List.ne_nil_of_length_pos hpos

/-- A flit is taken: the lanes that are left of it come behind what is collected. -/
theorem takeFlit_spec (lane lastByte : ℕ) (hroom : s.buf.length < maxData) (hbytes : ∀ p ∈ s.out, p.data ≠ [])
    (hlast : s.tdata.drop lane ≠ [] → lastByte + 1 = s.tdata.length)
    (hend : s.tdata.drop lane = [] → s.tlast = true → s.buf = [] → mark s.collected = s.collected) :
    Taking (s.takeFlit lane lastByte) ∧ (s.takeFlit lane lastByte).withFlit = feed s.collected (s.tdata.drop lane) s.tlast := by
  have hspec := lanes_spec s.tlast lastByte (d := events s.out) (i := lane) (l := s.tdata.drop lane) hroom
    (fun hne => by
      have hlane : lane < s.tdata.length := Nat.lt_of_not_le fun hle => hne (List.drop_eq_nil_of_le hle)
      rw [hlast hne, List.length_drop, Nat.add_sub_cancel' (Nat.le_of_lt hlane)])
    (fun hnil hlast hbuf => by
      have hmark := hend hnil hlast hbuf
      rwa [collected, hbuf, List.map_nil, List.append_nil] at hmark)
  unfold takeFlit
  split at hspec
  · rename_i buf' hlanes
    rw [hlanes]
    obtain ⟨hroom', hfeed⟩ := hspec
    exact ⟨taking_of_ready hroom' rfl hbytes, hfeed⟩
  · rename_i buf' eop hlanes
    rw [hlanes]
    refine ⟨⟨Nat.zero_lt_succ _, fun _ => rfl, fun h => (h.elim nofun nofun : False).elim, bytes_concat hbytes hspec.1⟩, ?_⟩
    change events (s.out ++ [⟨buf', eop⟩]) ++ [] = _
    rw [List.append_nil, events_append]
    exact hspec.2
  · rename_i buf' eop next hlanes
    rw [hlanes]
    obtain ⟨hpos, hnext, hfeed, heop⟩ := hspec
    have hdrop : (s.tdata.drop lane).drop (next - lane) = s.tdata.drop next := by
      rw [List.drop_drop, Nat.add_sub_cancel' (Nat.le_of_lt hnext)]
    rw [hdrop] at hfeed heop
    have hcollected : events (s.out ++ [⟨buf', eop⟩]) ++ [] = feed (events s.out) buf' eop := by rw [List.append_nil, events_append]
    refine ⟨⟨Nat.zero_lt_succ _, fun _ => rfl, ?_, bytes_concat hbytes hpos⟩, ?_⟩
    · intro k h
      obtain rfl : Loop.mk s.tdata s.tlast next lastByte = k := by
        rcases h with h | h
        · exact Option.some.inj (Receiver.calling.inj h)
        · cases h
      refine ⟨fun hne => hlast fun hnil => hne ?_, fun hnil htlast => ?_⟩
      · rw [← hdrop, hnil, List.drop_nil]
      · change mark (events (s.out ++ [⟨buf', eop⟩]) ++ []) = events (s.out ++ [⟨buf', eop⟩]) ++ []
        rw [hcollected, heop hnil htlast, feed, if_pos rfl, mark_mark]
    · change feed (events (s.out ++ [⟨buf', eop⟩]) ++ []) (s.tdata.drop next) s.tlast = _
      rw [hcollected, hfeed]
      rfl

theorem takeFlit_eq (s : State) (lane lastByte : ℕ) : ∃ buf out rx, s.takeFlit lane lastByte = { s with buf := buf, out := out, rx := rx } := by
  unfold takeFlit
  split
  · exact ⟨_, s.out, _, rfl⟩
  · exact ⟨_, _, _, rfl⟩

/-! ### The sender -/

theorem take_append_drop_length (l : List Byte) (n : ℕ) : l.take n ++ l.drop (l.take n).length = l := by
  rw [List.length_take]
  rcases Nat.le_total n l.length with hle | hle
  · rw [Nat.min_eq_left hle, List.take_append_drop]
  · rw [Nat.min_eq_right hle, List.drop_length, List.append_nil, List.take_of_length_le hle]

/-- The next beat puts the next bytes on the bus. -/
theorem nextBeat_spec (bus : ℕ) {p : Payload} {pos : ℕ} (hpos : pos ≤ p.data.length) (hlast : s.tlast = false) :
    OnBus (s.nextBeat bus p pos) ∧ (s.nextBeat bus p pos).withPayload = feed s.withFlit (p.data.drop pos) p.eop := by
  have hlen : pos + ((p.data.drop pos).take bus).length ≤ p.data.length := by
    rw [List.length_take, List.length_drop]
    omega
  refine ⟨⟨nofun, fun h => ?_⟩, ?_⟩
  · obtain ⟨rfl, rfl⟩ := Sender.sending.inj h
    refine ⟨rfl, hlen, ?_⟩
    simp only [nextBeat, hlast]
    by_cases hend : pos + ((p.data.drop pos).take bus).length = p.data.length ∧ p.eop = true
    · rw [if_pos hend, decide_eq_true hend.1, hend.2]
      rfl
    · rw [if_neg hend]
      symm
      rw [Bool.and_eq_false_iff, decide_eq_false_iff_not, ← Bool.not_eq_true]
      exact Decidable.not_and_iff_or_not.1 hend
  · have hrest : (p.data.drop pos).take bus ++ p.data.drop (pos + ((p.data.drop pos).take bus).length) = p.data.drop pos := by
      rw [← List.drop_drop, take_append_drop_length]
    change feed s.withFlit ((p.data.drop pos).take bus ++ p.data.drop (pos + ((p.data.drop pos).take bus).length)) p.eop = _
    rw [hrest]

/-- After a beat that was taken, what follows it. -/
theorem afterBeat_spec (bus : ℕ) {p : Payload} {pos : ℕ} {l : List (Option Byte)} (hbus : OnBus s) (htx : s.tx = .sending p pos) (hreset : s.resetn = true)
    (hflit : s.withFlit = feed l s.tdata s.tlast) :
    OnBus (s.afterBeat bus p pos) ∧ (s.afterBeat bus p pos).withPayload = feed l (s.tdata ++ p.data.drop pos) p.eop := by
  obtain ⟨-, hpos, hlast⟩ := hbus.sending htx
  unfold afterBeat
  rw [if_neg (by rw [hreset]; exact Bool.noConfusion)]
  by_cases hmore : pos < p.data.length
  · rw [if_pos hmore]
    have hnone : s.tlast = false := by rw [hlast, decide_eq_false (Nat.ne_of_lt hmore), Bool.false_and]
    obtain ⟨hbus', hpayload⟩ := nextBeat_spec bus hpos hnone
    refine ⟨hbus', ?_⟩
    rw [hpayload, hflit, hnone, feed_append]
  · rw [if_neg hmore]
    have hall : pos = p.data.length := by omega
    refine ⟨⟨fun _ => ⟨rfl, rfl⟩, nofun⟩, ?_⟩
    rw [hall, List.drop_length, List.append_nil]
    rw [hlast, decide_eq_true hall, Bool.true_and] at hflit
    exact hflit

theorem afterBeat_eq (s : State) (bus : ℕ) (p : Payload) (pos : ℕ) :
    (s.afterBeat bus p pos).buf = s.buf ∧ (s.afterBeat bus p pos).out = s.out ∧ (s.afterBeat bus p pos).rx = s.rx ∧ (s.afterBeat bus p pos).sent = s.sent := by
  unfold afterBeat
  split
  · exact ⟨rfl, rfl, rfl, rfl⟩
  · split
    · exact ⟨rfl, rfl, rfl, rfl⟩
    · exact ⟨rfl, rfl, rfl, rfl⟩

/-! ### The steps -/

/-- What holds along a run whose steps are fair. -/
structure Inv (s : State) : Prop where
  bus : OnBus s
  taking : Taking s
  conserved : s.Conserved

theorem Inv.init : Inv {} :=
  ⟨⟨fun _ => ⟨rfl, rfl⟩, nofun⟩, taking_of_ready (Nat.zero_lt_succ _) rfl nofun, rfl⟩

theorem Inv.send {p : Payload} (h : Inv s) (hs : s.send bus p = some s') : Inv s' := by
  unfold State.send at hs
  split at hs
  · rename_i hidle
    obtain rfl := Option.some.inj hs
    obtain ⟨hbus, hpayload⟩ := nextBeat_spec (s := { s with sent := s.sent ++ [p] }) bus (Nat.zero_le p.data.length) (h.bus.idle hidle).2
    refine ⟨hbus, h.taking.of_eq rfl rfl rfl, ?_⟩
    have hsent : s.withFlit = events s.sent := by
      have hconserved := h.conserved
      rwa [Conserved, withPayload, hidle] at hconserved
    rw [Conserved, hpayload, List.drop_zero]
    change feed s.withFlit p.data p.eop = events (s.sent ++ [p])
    rw [hsent, events_append]
  · cases hs

/-- Where the receiver takes no flit, it goes at most into reset or out of it. -/
theorem receive_cases (s : State) :
    s.rx = .ready ∧ s.resetn = true ∧ s.tvalid = true ∧ s.receive = s.takeFlit 0 (getLastByte s.tdata) ∨
      s.rx.AtRest ∧ (∃ rx, rx.AtRest ∧ s.receive = { s with rx := rx }) ∨ s.receive = s := by
  cases hrx : s.rx with
  | ready =>
    unfold receive
    rw [hrx]
    by_cases hreset : s.resetn = false
    · exact .inr (.inl ⟨trivial, .inReset, trivial, if_pos hreset⟩)
    · by_cases hvalid : s.tvalid = true
      · exact .inl ⟨rfl, eq_true_of_ne_false hreset, hvalid, (if_neg hreset).trans (if_pos hvalid)⟩
      · exact .inr (.inr ((if_neg hreset).trans (if_neg hvalid)))
  | inReset =>
    unfold receive
    rw [hrx]
    by_cases hreset : s.resetn = false
    · exact .inr (.inr (if_pos hreset))
    · exact .inr (.inl ⟨trivial, .ready, trivial, if_neg hreset⟩)
  | calling loop =>
    unfold receive
    rw [hrx]
    exact .inr (.inr rfl)
  | delaying loop =>
    unfold receive
    rw [hrx]
    exact .inr (.inr rfl)

theorem withFlit_of_atRest (h : s.rx.AtRest) : s.withFlit = s.collected := by
  unfold withFlit
  split <;> rename_i hrx
  · rw [hrx] at h
    exact h.elim
  · rw [hrx] at h
    exact h.elim
  · rfl

/-- What holds is kept where the signals and the bytes collected stay, and a receiver at rest stays so. -/
theorem Inv.of_eq (h : Inv s) (hbus : OnBus s') (hrest : s.rx.AtRest) (hrest' : s'.rx.AtRest)
    (hout : s'.out = s.out) (hbuf : s'.buf = s.buf) (htx : s'.tx = s.tx) (hdata : s'.tdata = s.tdata) (hsent : s'.sent = s.sent) : Inv s' := by
  have hcollected : s'.collected = s.collected := by rw [collected, collected, hbuf, hout]
  refine ⟨hbus, ⟨hbuf ▸ h.taking.room, ?_, ?_, hout ▸ h.taking.bytes⟩, ?_⟩
  · rintro loop (hrx | hrx) <;> rw [hrx] at hrest' <;> exact hrest'.elim
  · rintro k (hrx | hrx) <;> rw [hrx] at hrest' <;> exact hrest'.elim
  · have hconserved := h.conserved
    rw [Conserved, withPayload, withFlit_of_atRest hrest] at hconserved
    rw [Conserved, withPayload, withFlit_of_atRest hrest', hcollected, htx, hdata, hsent]
    exact hconserved

theorem Inv.receive_of_rest (h : Inv s) (hrest : s.rx.AtRest ∧ (∃ rx, rx.AtRest ∧ s.receive = { s with rx := rx }) ∨ s.receive = s) : Inv s.receive := by
  rcases hrest with ⟨hrest, rx, hrest', hreceive⟩ | hreceive
  · rw [hreceive]
    exact h.of_eq (h.bus.of_eq rfl rfl rfl) hrest hrest' rfl rfl rfl rfl rfl
  · rw [hreceive]
    exact h

theorem Inv.beat {p : Payload} {pos : ℕ} (h : Inv s) (htx : s.tx = .sending p pos) (hready : s.rx = .ready) (hreset : s.resetn = true)
    (hempty : s.tdata = [] → s.tlast = true → s.buf = [] → mark s.collected = s.collected) :
    Inv ((s.takeFlit 0 (getLastByte s.tdata)).afterBeat bus p pos) := by
  obtain ⟨htaking, hflit⟩ := takeFlit_spec (s := s) 0 (getLastByte s.tdata) h.taking.room h.taking.bytes
    (fun hne => Nat.sub_add_cancel (List.length_pos_of_ne_nil hne)) hempty
  obtain ⟨buf, out, rx, htake⟩ := takeFlit_eq s 0 (getLastByte s.tdata)
  rw [List.drop_zero] at hflit
  rw [htake] at htaking hflit ⊢
  obtain ⟨hbus, hpayload⟩ := afterBeat_spec bus (s := { s with buf := buf, out := out, rx := rx }) (h.bus.of_eq rfl rfl rfl) htx hreset hflit
  obtain ⟨hbuf, hout, hrx, hsent⟩ := afterBeat_eq { s with buf := buf, out := out, rx := rx } bus p pos
  refine ⟨hbus, htaking.of_eq hbuf hout hrx, ?_⟩
  have hconserved := h.conserved
  rw [Conserved, withPayload, htx, withFlit_of_atRest (by rw [hready]; trivial)] at hconserved
  rw [Conserved, hpayload, hsent]
  exact hconserved

theorem Inv.edge (h : Inv s) (hfair : Fair s .edge) : Inv (s.edge bus) := by
  unfold State.edge transmit
  cases htx : s.tx with
  | idle =>
    rcases receive_cases s with ⟨-, -, hvalid, -⟩ | hrest
    · rw [(h.bus.idle htx).1] at hvalid
      cases hvalid
    · exact h.receive_of_rest hrest
  | sending p pos =>
    obtain ⟨hreset, hrx⟩ := hfair (by rw [isSending, htx])
    obtain ⟨hvalid, -, -⟩ := h.bus.sending htx
    change Inv (if s.tready = true ∨ s.resetn = false then s.receive.afterBeat bus p pos else s.receive)
    split at hrx
    · rename_i hready
      have htake : s.receive = s.takeFlit 0 (getLastByte s.tdata) := by
        rw [receive, hready]
        exact (if_neg (by rw [hreset]; exact Bool.noConfusion)).trans (if_pos hvalid)
      rw [if_pos (.inl (by rw [tready, hready])), htake]
      exact h.beat htx hready hreset hrx
    · rename_i hdelaying
      have hwait : ¬(s.tready = true ∨ s.resetn = false) := by
        rw [tready, hdelaying, hreset]
        exact fun h => h.elim Bool.noConfusion Bool.noConfusion
      rw [if_neg hwait, receive, hdelaying]
      exact h
    · exact hrx.elim

theorem Inv.assertReset (h : Inv s) (hfair : Fair s .assertReset) (hs : s.assertReset = some s') : Inv s' := by
  unfold State.assertReset at hs
  split at hs
  · obtain rfl := Option.some.inj hs
    have htx : s.tx = .idle := by
      have hidle := hfair.1
      unfold isSending at hidle
      split at hidle
      · assumption
      · cases hidle
    split
    · rename_i hready
      exact h.of_eq (h.bus.of_eq htx.symm rfl rfl) (by rw [hready]; trivial) trivial rfl rfl htx.symm rfl rfl
    · refine ⟨h.bus.of_eq htx.symm rfl rfl, h.taking.of_eq rfl rfl rfl, ?_⟩
      have hconserved := h.conserved
      rw [Conserved, withPayload, htx] at hconserved
      exact hconserved
  · cases hs

theorem Inv.releaseReset (h : Inv s) (hs : s.releaseReset = some s') : Inv s' := by
  unfold State.releaseReset at hs
  split at hs
  · obtain rfl := Option.some.inj hs
    exact ⟨h.bus.of_eq rfl rfl rfl, h.taking.of_eq rfl rfl rfl, h.conserved⟩
  · cases hs

theorem Inv.targetReturns (h : Inv s) (hs : s.targetReturns = some s') : Inv s' := by
  unfold State.targetReturns at hs
  split at hs
  · rename_i loop hcalling
    obtain rfl := Option.some.inj hs
    have hflit : { s with rx := .delaying loop }.withFlit = s.withFlit := by
      unfold withFlit
      rw [hcalling]
      cases loop <;> rfl
    refine ⟨h.bus.of_eq rfl rfl rfl, ⟨h.taking.room, fun _ => h.taking.calling (.inl hcalling), ?_, h.taking.bytes⟩, ?_⟩
    · rintro k (hrx | hrx)
      · cases hrx
      · cases hrx
        exact ⟨(h.taking.loop (.inl hcalling)).lastByte, (h.taking.loop (.inl hcalling)).ended⟩
    · have hconserved := h.conserved
      rw [Conserved, withPayload] at hconserved ⊢
      rw [hflit]
      exact hconserved
  · cases hs

/-- What is left of a flit when the loop over it goes on. -/
theorem takeFlit_loop {k : Loop} (h : Taking s) (hrx : s.rx = .delaying (some k)) (hrest : s.tdata.drop k.lane = k.flit.drop k.lane)
    (hlast : k.flit.drop k.lane ≠ [] → s.tlast = k.tlast) :
    Taking (s.takeFlit k.lane k.lastByte) ∧ (s.takeFlit k.lane k.lastByte).withFlit = s.withFlit := by
  have hbuf := h.calling (.inr hrx)
  obtain ⟨hlastByte, hended⟩ := h.loop (.inr hrx)
  have hwith : s.withFlit = feed s.collected (k.flit.drop k.lane) k.tlast := by rw [withFlit, hrx]
  by_cases hnil : k.flit.drop k.lane = []
  · have hdone : s.takeFlit k.lane k.lastByte = { s with buf := [], rx := .ready } := by
      rw [takeFlit, hrest, hnil, hbuf, lanes, if_neg fun hflush => absurd hflush.2 (Nat.lt_irrefl 0)]
    rw [hdone, hwith, hnil]
    refine ⟨taking_of_ready (Nat.zero_lt_succ _) rfl h.bytes, ?_⟩
    have hcollected : ({ s with buf := [], rx := .ready } : State).withFlit = s.collected := by
      rw [collected, hbuf]
      rfl
    rw [hcollected]
    cases htlast : k.tlast with
    | false => rw [feed_nil]
    | true =>
      rw [feed, if_pos rfl, List.map_nil, List.append_nil]
      exact (hended hnil htlast).symm
  · have hlen : s.tdata.length = k.flit.length := by
      have hdrop := congrArg List.length hrest
      have hpos := List.length_pos_of_ne_nil hnil
      rw [List.length_drop, List.length_drop] at hdrop
      rw [List.length_drop] at hpos
      omega
    obtain ⟨htaking, hflit⟩ := takeFlit_spec (s := s) k.lane k.lastByte h.room h.bytes
      (fun _ => (hlastByte hnil).trans hlen.symm) (fun hdone => absurd (hrest.symm.trans hdone) hnil)
    refine ⟨htaking, ?_⟩
    rw [hflit, hwith, hrest, hlast hnil]

/-- The loop goes on, and the bus shows the rest of its flit. -/
theorem Inv.delayEnds (h : Inv s) (hfair : Fair s .delayEnds) (hs : s.delayEnds = some s') : Inv s' := by
  unfold State.delayEnds at hs
  have hconserved := h.conserved
  split at hs
  · rename_i hdelaying
    obtain rfl := Option.some.inj hs
    refine ⟨h.bus.of_eq rfl rfl rfl, taking_of_ready h.taking.room rfl h.taking.bytes, ?_⟩
    rw [Conserved, withPayload, withFlit, hdelaying] at hconserved
    exact hconserved
  · rename_i loop hdelaying
    obtain rfl := Option.some.inj hs
    rw [Fair, hdelaying] at hfair
    obtain ⟨htaking, hflit⟩ := takeFlit_loop h.taking hdelaying hfair.1 hfair.2
    obtain ⟨buf, out, rx, htake⟩ := takeFlit_eq s loop.lane loop.lastByte
    rw [htake] at htaking hflit ⊢
    refine ⟨h.bus.of_eq rfl rfl rfl, htaking, ?_⟩
    rw [Conserved, withPayload] at hconserved ⊢
    rw [hflit]
    exact hconserved
  · cases hs

theorem Inv.step {a : Act} (h : Inv s) (hfair : Fair s a) (hs : Axis.step bus s a = some s') : Inv s' := by
  cases a with
  | send p => exact h.send hs
  | edge =>
    obtain rfl := Option.some.inj hs
    exact h.edge hfair
  | assertReset => exact h.assertReset hfair hs
  | releaseReset => exact h.releaseReset hs
  | targetReturns => exact h.targetReturns hs
  | delayEnds => exact h.delayEnds hfair hs

end State

theorem prefix_feed (l : List (Option Byte)) (data : List Byte) (last : Bool) : l <+: feed l data last := by
  have hmark : ∀ l : List (Option Byte), l <+: mark l := fun l => by
    unfold mark
    split
    · exact List.prefix_append l [none]
    · exact List.prefix_rfl
  unfold feed
  split
  · exact (List.prefix_append l (data.map some)).trans (hmark _)
  · exact List.prefix_append l (data.map some)

/-- In a run whose steps are fair nothing is lost, repeated or invented, and packets end where they should. -/
theorem delivered_of_run (bus : ℕ) {s : State} (h : Reach (step bus) Fair {} s) : s.Delivered := by
  obtain ⟨-, htaking, hconserved⟩ := h.invariant State.Inv.init fun hinv hfair hs => hinv.step hfair hs
  refine ⟨?_, htaking.bytes, fun htx hrx => ?_⟩
  · have hflit : events s.out <+: s.withFlit := by
      have hcollected : events s.out <+: s.collected := List.prefix_append _ _
      unfold State.withFlit
      split
      · exact hcollected.trans (prefix_feed _ _ _)
      · exact hcollected.trans (prefix_feed _ _ _)
      · exact hcollected
    rw [← hconserved, State.withPayload]
    split
    · exact hflit.trans (prefix_feed _ _ _)
    · exact hflit
  · rw [State.Conserved, State.withPayload, htx, State.withFlit, hrx] at hconserved
    exact hconserved

/-- A packet of two beats. -/
theorem delivered_twoBeats : ∃ s : State, s.out = [⟨[1, 2, 3], true⟩] ∧ s.Delivered :=
  ⟨_, rfl, delivered_of_run 2
    (((((Reach.refl.tail (a := .send ⟨[1, 2, 3], true⟩) trivial rfl).tail (a := .edge) (fun _ => ⟨rfl, nofun⟩) rfl).tail
      (a := .edge) (fun _ => ⟨rfl, nofun⟩) rfl).tail (a := .targetReturns) trivial rfl).tail (a := .delayEnds) (by trivial) rfl)⟩

/-- The second packet is on the bus while the target has the first: it is lost. -/
theorem not_delivered_running : ¬∀ (bus : ℕ) (s : State), 0 < bus → Reach (step bus) anyStep {} s → s.Delivered := by
  intro h
  have hrun : run (step 4) {} [.send ⟨[1], true⟩, .edge, .send ⟨[2], true⟩, .edge, .targetReturns, .delayEnds] = some _ := rfl
  cases (h 4 _ (Nat.zero_lt_succ _) (reach_of_run hrun)).all rfl rfl

end LibSystemCTLM.Axis
