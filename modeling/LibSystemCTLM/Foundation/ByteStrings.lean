import LibSystemCTLM.Foundation.Instances
import Mathlib.Data.BitVec
import Mathlib.Data.List.Basic

/-!
# Strings of bytes in a memory

A memory gives each address of `w` bits what it holds. `loadBytes` reads as many places as asked for from an
address on, `storeBytes` puts a string there; addresses wrap. A string stored is read back
(`loadBytes_storeBytes`), and storing two strings one behind the other is storing them as one
(`storeBytes_append`), so that a copy in pieces is a copy (`storeBytes_loadBytes_add`).
-/

namespace LibSystemCTLM.Foundation

variable {w : ℕ} {β : Type*}

/-- So many places from an address on. -/
def loadBytes (mem : BitVec w → β) (a : BitVec w) (n : ℕ) : List β := (List.range n).map fun i => mem (a + BitVec.ofNat w i)

/-- A string stored from an address on. -/
def storeBytes (mem : BitVec w → β) (a : BitVec w) (bs : List β) : BitVec w → β := fun x => (bs[(x - a).toNat]?).getD (mem x)

@[simp] theorem length_loadBytes (mem : BitVec w → β) (a : BitVec w) (n : ℕ) : (loadBytes mem a n).length = n := by
  simp [loadBytes]

@[simp] theorem storeBytes_nil (mem : BitVec w → β) (a : BitVec w) : storeBytes mem a [] = mem := rfl

theorem getElem?_loadBytes (mem : BitVec w → β) (a : BitVec w) {n i : ℕ} (h : i < n) :
    (loadBytes mem a n)[i]? = some (mem (a + BitVec.ofNat w i)) := by
  rw [loadBytes, List.getElem?_map, List.getElem?_range h, Option.map_some]

/-- What is stored is read back. -/
theorem loadBytes_storeBytes (mem : BitVec w → β) (a : BitVec w) {bs : List β} (h : bs.length < 2 ^ w) :
    loadBytes (storeBytes mem a bs) a bs.length = bs := by
  apply List.ext_getElem (by simp)
  intro i _ hi
  have hat : (a + BitVec.ofNat w i - a).toNat = i := by
    rw [BitVec.add_comm, BitVec.add_sub_cancel, BitVec.toNat_ofNat, Nat.mod_eq_of_lt (by omega)]
  simp only [loadBytes, storeBytes, List.getElem_map, List.getElem_range]
  rw [hat, List.getElem?_eq_getElem hi, Option.getD_some]

/-- What is stored elsewhere is not read. -/
theorem loadBytes_storeBytes_of_le (mem : BitVec w → β) {a b : BitVec w} {xs : List β} {n : ℕ}
    (h : ∀ i < n, xs.length ≤ (a + BitVec.ofNat w i - b).toNat) : loadBytes (storeBytes mem b xs) a n = loadBytes mem a n := by
  refine List.map_congr_left fun i hi => ?_
  rw [storeBytes, List.getElem?_eq_none (h i (List.mem_range.1 hi)), Option.getD_none]

/-- Strings of one length that leave the same memory are the same. -/
theorem storeBytes_inj {mem : BitVec w → β} {a : BitVec w} {bs bs' : List β} (h : storeBytes mem a bs = storeBytes mem a bs')
    (hlen : bs.length = bs'.length) (hw : bs.length < 2 ^ w) : bs = bs' := by
  rw [← loadBytes_storeBytes mem a hw, h, hlen, loadBytes_storeBytes mem a (hlen ▸ hw)]

/-- A string that is longer, read. -/
theorem loadBytes_add (mem : BitVec w → β) (a : BitVec w) (m n : ℕ) :
    loadBytes mem a (m + n) = loadBytes mem a m ++ loadBytes mem (a + BitVec.ofNat w m) n := by
  rw [loadBytes, List.range_add, List.map_append, List.map_map]
  refine congrArg (loadBytes mem a m ++ ·) (List.map_congr_left fun i _ => ?_)
  simp only [Function.comp_apply]
  rw [BitVec.add_assoc, ← BitVec.ofNat_add]

/-- Two strings one behind the other. -/
theorem storeBytes_append (mem : BitVec w → β) (a : BitVec w) {xs ys : List β} (h : xs.length + ys.length ≤ 2 ^ w) :
    storeBytes mem a (xs ++ ys) = storeBytes (storeBytes mem a xs) (a + BitVec.ofNat w xs.length) ys := by
  funext x
  have hlt := (x - a).isLt
  rcases Nat.eq_zero_or_pos ys.length with hy | hy
  · rw [List.length_eq_zero_iff.1 hy, List.append_nil, storeBytes_nil]
  have hxs : xs.length < 2 ^ w := by omega
  have hsub : x - (a + BitVec.ofNat w xs.length) = x - a - BitVec.ofNat w xs.length := sub_add_eq_sub_sub _ _ _
  have hnat : (x - (a + BitVec.ofNat w xs.length)).toNat = (2 ^ w - xs.length + (x - a).toNat) % 2 ^ w := by
    rw [hsub, BitVec.toNat_sub, BitVec.toNat_ofNat, Nat.mod_eq_of_lt hxs]
  simp only [storeBytes]
  by_cases hin : (x - a).toNat < xs.length
  · have hout : ys.length ≤ (x - (a + BitVec.ofNat w xs.length)).toNat := by
      rw [hnat, Nat.mod_eq_of_lt (by omega)]
      omega
    rw [List.getElem?_append_left hin, List.getElem?_eq_none hout, Option.getD_none]
  · have hrest : (x - (a + BitVec.ofNat w xs.length)).toNat = (x - a).toNat - xs.length := by
      rw [hnat, show 2 ^ w - xs.length + (x - a).toNat = (x - a).toNat - xs.length + 2 ^ w by omega, Nat.add_mod_right,
        Nat.mod_eq_of_lt (by omega)]
    rw [List.getElem?_append_right (by omega), hrest, List.getElem?_eq_none (by omega : xs.length ≤ (x - a).toNat), Option.getD_none]

/-- What is there already may be stored behind a string. -/
theorem storeBytes_append_loadBytes (mem : BitVec w → β) (a : BitVec w) (xs : List β) (n : ℕ) :
    storeBytes mem a (xs ++ loadBytes mem (a + BitVec.ofNat w xs.length) n) = storeBytes mem a xs := by
  funext x
  have hx : a + BitVec.ofNat w (x - a).toNat = x := by
    rw [BitVec.ofNat_toNat, BitVec.setWidth_eq, BitVec.add_comm, BitVec.sub_add_cancel]
  simp only [storeBytes]
  by_cases hin : (x - a).toNat < xs.length
  · rw [List.getElem?_append_left hin]
  · rw [List.getElem?_append_right (by omega), List.getElem?_eq_none (by omega : xs.length ≤ (x - a).toNat), Option.getD_none]
    by_cases hn : (x - a).toNat - xs.length < n
    · rw [getElem?_loadBytes _ _ hn, Option.getD_some, BitVec.add_assoc, ← BitVec.ofNat_add, Nat.add_sub_cancel' (by omega), hx]
    · rw [List.getElem?_eq_none (by rw [length_loadBytes]; omega), Option.getD_none]

/-- What is there already may be stored. -/
theorem storeBytes_loadBytes_self (mem : BitVec w → β) (a : BitVec w) (n : ℕ) : storeBytes mem a (loadBytes mem a n) = mem := by
  have h := storeBytes_append_loadBytes mem a [] n
  rwa [List.nil_append, List.length_nil, BitVec.add_zero] at h

/-- A copy in two pieces. -/
theorem storeBytes_loadBytes_add (src mem : BitVec w → β) (a b : BitVec w) {m n : ℕ} (h : m + n ≤ 2 ^ w) :
    storeBytes mem b (loadBytes src a (m + n)) =
      storeBytes (storeBytes mem b (loadBytes src a m)) (b + BitVec.ofNat w m) (loadBytes src (a + BitVec.ofNat w m) n) := by
  rw [loadBytes_add, storeBytes_append _ _ (by simpa using h), length_loadBytes]

end LibSystemCTLM.Foundation
