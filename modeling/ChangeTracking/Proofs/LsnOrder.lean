import ChangeTracking.Lsn
import Mathlib.Order.Lattice
import Mathlib.Tactic.Lemma

/-!
# The order of log positions

Log positions are ordered as numbers, so they form a linear order with `never` at the bottom.  The
later of two positions is their maximum, and there is nothing between a position and the next.
-/

namespace ChangeTracking

namespace Lsn

lemma ext_toNat {a b : Lsn} (h : a.val.toNat = b.val.toNat) : a = b := by
  cases a
  cases b
  exact congrArg Lsn.mk (UInt64.toNat_inj.mp h)

lemma le_iff_toNat {a b : Lsn} : a ≤ b ↔ a.val.toNat ≤ b.val.toNat := UInt64.le_iff_toNat_le

lemma lt_iff_toNat {a b : Lsn} : a < b ↔ a.val.toNat < b.val.toNat := UInt64.lt_iff_toNat_lt

instance : LinearOrder Lsn where
  le_refl a := le_iff_toNat.mpr le_rfl
  le_trans a b c hab hbc := by
    rw [le_iff_toNat] at *
    exact hab.trans hbc
  lt_iff_le_not_ge a b := by
    rw [lt_iff_toNat, le_iff_toNat, le_iff_toNat]
    exact lt_iff_le_not_ge
  le_antisymm a b hab hba := by
    rw [le_iff_toNat] at *
    exact ext_toNat (hab.antisymm hba)
  le_total a b := by
    rw [le_iff_toNat, le_iff_toNat]
    exact le_total _ _
  toDecidableLE := inferInstance
  toDecidableEq := inferInstance
  toDecidableLT := inferInstance

lemma never_le (a : Lsn) : never ≤ a := le_iff_toNat.mpr (Nat.zero_le _)

@[simp] lemma le_never_iff {a : Lsn} : a ≤ never ↔ a = never :=
  ⟨fun h => h.antisymm (never_le a), fun h => h.le⟩

lemma known_iff {a : Lsn} : a.known = true ↔ a ≠ never := by
  cases a with
  | mk val => simp [known, never]

@[simp] lemma known_never : never.known = false := rfl

lemma eq_never_of_not_known {a : Lsn} (h : ¬ a.known = true) : a = never := by
  by_contra hne
  exact h (known_iff.mpr hne)

lemma known_of_le {a b : Lsn} (ha : a.known = true) (h : a ≤ b) : b.known = true := by
  rw [known_iff] at *
  rintro rfl
  exact ha (le_never_iff.mp h)

lemma latest_eq_max (a b : Lsn) : a.latest b = max a b := by
  unfold latest
  split
  · next h => rw [max_eq_right h.le]
  · next h => rw [max_eq_left (not_lt.mp h)]

@[simp] lemma max_never (a : Lsn) : max a never = a := max_eq_left (never_le a)

/-- The last position that there is. -/
def last : Lsn := ⟨0xffffffffffffffff⟩

lemma toNat_next (a : Lsn) : a.next.val.toNat = min (a.val.toNat + 1) last.val.toNat := by
  have hlast : last.val.toNat = 18446744073709551615 := rfl
  have hlt := a.val.toNat_lt
  by_cases ha : a.val = 0xffffffffffffffff
  · simp [next, ha, hlast]
  · have hne : a.val.toNat ≠ 18446744073709551615 := fun h => ha (UInt64.toNat_inj.mp h)
    simp only [next, ha, if_false, UInt64.toNat_add, UInt64.reduceToNat]
    omega

lemma known_next (a : Lsn) : a.next.known = true := by
  have hlast : last.val.toNat = 18446744073709551615 := rfl
  have hnext := a.toNat_next
  rw [known_iff]
  intro h
  rw [h, hlast] at hnext
  have hnever : never.val.toNat = 0 := rfl
  omega

lemma le_next (a : Lsn) : a ≤ a.next := by
  have hlast : last.val.toNat = 18446744073709551615 := rfl
  have hlt := a.val.toNat_lt
  rw [le_iff_toNat, toNat_next]
  omega

/-- The next position is later than all up to this one, unless these are at the end already. -/
lemma lt_next_of_le {a b : Lsn} (h : a ≤ b) (ha : a < last) : a < b.next := by
  rw [le_iff_toNat] at h
  rw [lt_iff_toNat] at ha
  rw [lt_iff_toNat, toNat_next]
  omega

/-- There is nothing between a position and the next. -/
lemma next_le_of_lt {a b : Lsn} (h : a < b) : a.next ≤ b := by
  rw [lt_iff_toNat] at h
  rw [le_iff_toNat, toNat_next]
  omega

end Lsn

end ChangeTracking
