import LibSystemCTLM.Foundation.Lines
import Mathlib.Data.List.Basic
import Mathlib.Logic.Function.Basic

/-!
# Byte memories and the latest write

A byte memory is a function from addresses to bytes. A `Write` puts some of the bytes of a run
of `len` addresses: those its mask enables. Writing changes exactly the enabled bytes of the
run. `latest init ws` is the memory after the writes `ws`, the newest of them first, over the
contents `init`: at each address it is the byte of the most recent write that enabled the
address, and `init` where there was none. `store` puts single bytes, one after the other.
-/

namespace LibSystemCTLM.Foundation

variable {w : ℕ} {β : Type*}

/-- A masked write of `len` bytes from `addr` on; byte `i` of it is `data i`, put when `enabled i`. -/
structure Write (w : ℕ) (β : Type*) where
  addr : BitVec w
  len : ℕ
  enabled : ℕ → Bool
  data : ℕ → β

namespace Write

/-- The write puts a byte at `x`. -/
def Hits (s : Write w β) (x : BitVec w) : Prop := (x - s.addr).toNat < s.len ∧ s.enabled (x - s.addr).toNat = true

instance (s : Write w β) (x : BitVec w) : Decidable (s.Hits x) := inferInstanceAs (Decidable (_ ∧ _))

/-- The memory after the write. -/
def apply (s : Write w β) (m : BitVec w → β) : BitVec w → β := fun x => if s.Hits x then s.data (x - s.addr).toNat else m x

theorem apply_of_not_hits {s : Write w β} {x : BitVec w} (m : BitVec w → β) (h : ¬ s.Hits x) : s.apply m x = m x :=
  if_neg h

theorem apply_of_hits {s : Write w β} {x : BitVec w} (m : BitVec w → β) (h : s.Hits x) :
    s.apply m x = s.data (x - s.addr).toNat := if_pos h

end Write

/-- The contents after the writes, newest first: the most recent enabled byte at each address. -/
def latest (init : BitVec w → β) : List (Write w β) → BitVec w → β
  | [] => init
  | s :: ws => s.apply (latest init ws)

/-- The byte offset of `a + i` behind `a`. -/
theorem toNat_add_ofNat_sub (a : BitVec w) {i : ℕ} (hi : i < 2 ^ w) : (a + BitVec.ofNat w i - a).toNat = i := by
  rw [BitVec.add_comm, BitVec.add_sub_cancel, BitVec.toNat_ofNat, Nat.mod_eq_of_lt hi]

/-- The whole run of bytes of a memory from `a` on. -/
def readFrom (m : BitVec w → β) (a : BitVec w) : ℕ → β := fun i => m (a + BitVec.ofNat w i)

/-- The memory with the run of `len` bytes from `a` on replaced. -/
def writeAt (m : BitVec w → β) (a : BitVec w) (len : ℕ) (data : ℕ → β) : BitVec w → β :=
  (Write.mk a len (fun _ => true) data).apply m

/-! ### Writes that stay in one line -/

/-- The bytes of a run that stays in its line, by line and offset. -/
theorem toNat_sub_lt_iff {k : ℕ} (hk : k ≤ w) {a x : BitVec w} {len : ℕ} (hlen : offsetOf k a + len ≤ 2 ^ k) :
    (x - a).toNat < len ↔ lineOf k x = lineOf k a ∧ offsetOf k a ≤ offsetOf k x ∧ offsetOf k x < offsetOf k a + len := by
  constructor
  · intro h
    have hx : x = a + BitVec.ofNat w (x - a).toNat := by
      rw [BitVec.ofNat_toNat, BitVec.setWidth_eq, BitVec.add_comm, BitVec.sub_add_cancel]
    have hoff : offsetOf k a + (x - a).toNat < 2 ^ k := by omega
    have hline := lineOf_add_of_offset hk a hoff
    have hofs := offsetOf_add_of_offset hk a hoff
    rw [← hx] at hline hofs
    exact ⟨hline, by omega, by omega⟩
  · rintro ⟨hline, hle, hlt⟩
    rw [toNat_sub_of_sameLine hk hline hle]
    omega

/-- A write that stays in its line, at the byte `x`. -/
theorem Write.apply_of_line {k : ℕ} (hk : k ≤ w) (s : Write w β) (m : BitVec w → β) (hlen : offsetOf k s.addr + s.len ≤ 2 ^ k)
    (x : BitVec w) :
    s.apply m x =
      if lineOf k x = lineOf k s.addr ∧ offsetOf k s.addr ≤ offsetOf k x ∧ offsetOf k x < offsetOf k s.addr + s.len ∧
          s.enabled (offsetOf k x - offsetOf k s.addr) = true then
        s.data (offsetOf k x - offsetOf k s.addr)
      else m x := by
  have hiff := toNat_sub_lt_iff hk (a := s.addr) (x := x) hlen
  split
  · rename_i h
    have hd := toNat_sub_of_sameLine hk h.1 h.2.1
    rw [s.apply_of_hits m ⟨hiff.2 ⟨h.1, h.2.1, h.2.2.1⟩, hd.symm ▸ h.2.2.2⟩, hd]
  · rename_i h
    refine s.apply_of_not_hits m fun hh => h ?_
    obtain ⟨hl, hle, hlt⟩ := hiff.1 hh.1
    exact ⟨hl, hle, hlt, toNat_sub_of_sameLine hk hl hle ▸ hh.2⟩

/-- Writing a whole line. -/
theorem writeAt_line {k : ℕ} (hk : k ≤ w) (m : BitVec w → β) {a : BitVec w} (ha : lineOf k a = a) (data : ℕ → β) (x : BitVec w) :
    writeAt m a (2 ^ k) data x = if lineOf k x = a then data (offsetOf k x) else m x := by
  have hoff : offsetOf k a = 0 := by rw [← ha, offsetOf_lineOf hk]
  rw [writeAt, Write.apply_of_line hk (k := k) _ m (by simp [hoff])]
  simp [hoff, ha, offsetOf_lt hk x]

/-! ### Bytes, one after the other -/

section Store

variable {α : Type*} [DecidableEq α] {ws ws' : List (α × β)} {x : α}

/-- The memory after some bytes are put at addresses, the first of them first. -/
def store : List (α × β) → (α → β) → α → β
  | [], m => m
  | p :: ws, m => store ws (Function.update m p.1 p.2)

theorem store_of_notMem (m : α → β) (h : x ∉ ws.map Prod.fst) : store ws m x = m x := by
  induction ws generalizing m with
  | nil => rfl
  | cons p ws ih =>
    obtain ⟨hne, hrest⟩ := not_or.1 fun h' => h (List.mem_cons.2 h')
    rw [store, ih _ hrest, Function.update_of_ne hne]

theorem store_append (ws ws' : List (α × β)) (m : α → β) : store (ws ++ ws') m = store ws' (store ws m) := by
  induction ws generalizing m with
  | nil => rfl
  | cons p ws ih => exact ih _

/-- What is written over does not show. -/
theorem store_of_mem (m m' : α → β) (h : x ∈ ws.map Prod.fst) : store ws m x = store ws m' x := by
  induction ws generalizing m m' with
  | nil => cases h
  | cons p ws ih =>
    by_cases hrest : x ∈ ws.map Prod.fst
    · exact ih _ _ hrest
    · obtain rfl : x = p.1 := (List.mem_cons.1 h).resolve_right hrest
      rw [store, store, store_of_notMem _ hrest, store_of_notMem _ hrest, Function.update_self, Function.update_self]

/-- **Writes that have the same effect on every memory are to the same addresses.** -/
theorem mem_of_store_eq [Nontrivial β] (h : ∀ m : α → β, store ws m = store ws' m) (hx : x ∈ ws.map Prod.fst) : x ∈ ws'.map Prod.fst := by
  by_contra hno
  obtain ⟨a, b, hab⟩ := exists_pair_ne β
  have hkept : ∀ c : β, store ws (fun _ => c) x = c := fun c => by rw [h, store_of_notMem _ hno]
  exact hab ((hkept a).symm.trans ((store_of_mem _ _ hx).trans (hkept b)))

end Store

end LibSystemCTLM.Foundation
