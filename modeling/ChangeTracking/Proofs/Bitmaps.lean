import ChangeTracking.Proofs.Scanning
import Mathlib.Data.List.Basic
import Mathlib.Data.List.Range

/-!
# The members of a set of offsets

`Scanning` says what the members of a set are that was made from a list (`contains_ofList`).  Here is
how many they are and how long the string of bits is.

The members are counted byte by byte, as they are listed by `toList`.  That list is strictly
ascending, so a member is in it once, and any other list in which each member is once is as long
(`size_ofList`).  The string grows only as far as the byte of the new member (`size_bits_insert`), so
its length is given by the greatest one (`size_bits_ofList`).
-/

namespace ChangeTracking

namespace Bitmap

/-! ## Members in ascending order -/

lemma mem_bitsOf {byte : UInt8} {bit : Nat} :
    bit ∈ bitsOf byte ↔ bit < 8 ∧ byte &&& mask bit ≠ 0 := by
  rw [bitsOf, List.mem_filter, List.mem_range, bne_iff_ne]

lemma mask_mod (n : Nat) : mask (n % 8) = mask n := by
  rw [mask, mask, Nat.mod_mod]

theorem mem_toList (s : Bitmap) (n : Nat) : n ∈ s.toList ↔ s.contains n = true := by
  simp only [toList, List.mem_flatMap, List.mem_map, Prod.exists, List.mem_zipIdx_iff_getElem?,
    Array.getElem?_toList, contains_iff, mem_bitsOf]
  constructor
  · rintro ⟨byte, i, hbyte, bit, ⟨hbit, hset⟩, rfl⟩
    have hindex : (i * 8 + bit) / 8 = i := by omega
    have hmod : (i * 8 + bit) % 8 = bit := by omega
    rw [hindex, hbyte, ← mask_mod, hmod]
    exact hset
  · intro hset
    cases hbyte : s.bits[n / 8]? with
    | none =>
      rw [hbyte] at hset
      exact absurd (UInt8.zero_and) hset
    | some byte =>
      rw [hbyte] at hset
      refine ⟨byte, n / 8, hbyte, n % 8, ⟨Nat.mod_lt n (by omega), ?_⟩, by omega⟩
      rw [mask_mod]
      exact hset

lemma pairwise_toList (s : Bitmap) : s.toList.Pairwise (· < ·) := by
  have hindices : s.bits.toList.zipIdx.Pairwise fun a b => a.2 < b.2 := by
    rw [← List.pairwise_map (f := Prod.snd) (R := (· < ·)), List.zipIdx_map_snd]
    exact List.pairwise_lt_range'
  rw [toList, List.pairwise_flatMap]
  constructor
  · rintro ⟨byte, i⟩ -
    rw [List.pairwise_map]
    refine (List.pairwise_lt_range.filter _).imp ?_
    intro a b hab
    omega
  · refine hindices.imp ?_
    rintro ⟨byte, i⟩ ⟨byte', j⟩ hij x hx y hy
    obtain ⟨bit, hbit, rfl⟩ := List.mem_map.mp hx
    obtain ⟨bit', -, rfl⟩ := List.mem_map.mp hy
    have hlt := (mem_bitsOf.mp hbit).1
    dsimp only at hij ⊢
    omega

/-- Counting the members byte by byte comes to as many as are listed. -/
lemma size_eq_length_toList (s : Bitmap) : s.size = s.toList.length := by
  have hcount : ∀ (bytes : List UInt8) (first n : Nat),
      bytes.foldl (fun n byte => n + (bitsOf byte).length) n
        = n + ((bytes.zipIdx first).flatMap fun byte =>
            (bitsOf byte.1).map fun bit => byte.2 * 8 + bit).length := by
    intro bytes
    induction bytes with
    | nil => intro first n; rfl
    | cons byte rest ih =>
      intro first n
      rw [List.foldl_cons, ih (first + 1), List.zipIdx_cons, List.flatMap_cons, List.length_append,
        List.length_map, Nat.add_assoc]
  rw [size, toList, ← Array.foldl_toList, hcount s.bits.toList 0 0, Nat.zero_add]

/-- A set that was made from different members has so many of them. -/
theorem size_ofList {members : List Nat} (h : members.Nodup) :
    (ofList members).size = members.length := by
  have hperm : (ofList members).toList.Perm members := by
    rw [List.perm_ext_iff_of_nodup ((ofList members).pairwise_toList.imp Nat.ne_of_lt) h]
    intro n
    rw [mem_toList, contains_ofList]
  rw [size_eq_length_toList, hperm.length_eq]

/-! ## The length of the string -/

lemma size_bits_insert (s : Bitmap) (n : Nat) :
    (s.insert n).bits.size = max s.bits.size (n / 8 + 1) := by
  rw [insert, Array.size_modify, padTo, Array.size_append, Array.size_replicate]
  omega

lemma size_bits_foldl_insert (members : List Nat) (s : Bitmap) {size : Nat} :
    (members.foldl insert s).bits.size ≤ size ↔
      s.bits.size ≤ size ∧ ∀ n ∈ members, n / 8 < size := by
  induction members generalizing s with
  | nil => simp
  | cons n rest ih =>
    rw [List.foldl_cons, ih, size_bits_insert, Nat.max_le, Nat.succ_le_iff, List.forall_mem_cons,
      and_assoc]

/-- The string is only as long as the greatest member needs. -/
theorem size_bits_ofList {members : List Nat} {n : Nat} (hmem : n ∈ members)
    (hgreatest : ∀ k ∈ members, k ≤ n) : (ofList members).bits.size = n / 8 + 1 := by
  apply Nat.le_antisymm
  · refine (size_bits_foldl_insert members empty).mpr ⟨Nat.zero_le _, fun k hk => ?_⟩
    exact Nat.lt_succ_of_le (Nat.div_le_div_right (hgreatest k hk))
  · exact ((size_bits_foldl_insert members empty).mp le_rfl).2 n hmem

end Bitmap

end ChangeTracking
