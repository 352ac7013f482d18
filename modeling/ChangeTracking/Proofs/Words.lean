import ChangeTracking.Bytes.LittleEndian
import Mathlib.Algebra.Group.Nat.Defs
import Mathlib.Data.List.Basic
import Mathlib.Tactic.Lemma

/-!
# Words and the bytes they are kept in

A word is read back from its bytes (`word32_ofWord32`, `word64_ofWord64`), and bytes are those of
the word that is read from them (`ofWord32_word32`, `ofWord64_word64`).  So a string of bytes can be
taken apart into words without loss (`drop_eq_word32`, `drop_eq_word64`).
-/

namespace ChangeTracking

namespace Bytes

/-! ## From numbers to bytes and back -/

@[simp] lemma length_ofNat (width n : Nat) : (ofNat width n).length = width := by
  induction width generalizing n with
  | zero => rfl
  | succ width ih => simp [ofNat, ih]

lemma toNat_ofNat {width n : Nat} (h : n < 256 ^ width) : toNat (ofNat width n) = n := by
  induction width generalizing n with
  | zero =>
    have hzero : n = 0 := by simpa using h
    rw [hzero]
    rfl
  | succ width ih =>
    have hrest : n / 256 < 256 ^ width := by
      rw [Nat.pow_succ] at h
      exact Nat.div_lt_of_lt_mul (by rw [Nat.mul_comm]; exact h)
    rw [ofNat, toNat, ih hrest, UInt8.toNat_ofNat']
    omega

@[simp] lemma length_ofWord32 (w : UInt32) : (ofWord32 w).length = 4 := length_ofNat 4 _

@[simp] lemma length_ofWord64 (w : UInt64) : (ofWord64 w).length = 8 := length_ofNat 8 _

@[simp] lemma word32_ofWord32 (w : UInt32) (rest : Bytes) : word32 (ofWord32 w ++ rest) = w := by
  rw [word32, List.take_left' (length_ofWord32 w), ofWord32, toNat_ofNat w.toNat_lt,
    UInt32.ofNat_toNat]

@[simp] lemma word64_ofWord64 (w : UInt64) (rest : Bytes) : word64 (ofWord64 w ++ rest) = w := by
  rw [word64, List.take_left' (length_ofWord64 w), ofWord64, toNat_ofNat w.toNat_lt,
    UInt64.ofNat_toNat]

lemma ofWord32_injective : Function.Injective ofWord32 := by
  intro v w h
  rw [← word32_ofWord32 v [], h, word32_ofWord32]

/-! ## From bytes to numbers and back -/

lemma toNat_lt (bytes : Bytes) : toNat bytes < 256 ^ bytes.length := by
  induction bytes with
  | nil => simp [toNat]
  | cons b rest ih =>
    have hb := b.toNat_lt
    rw [toNat, List.length_cons, Nat.pow_succ]
    omega

lemma ofNat_toNat (bytes : Bytes) : ofNat bytes.length (toNat bytes) = bytes := by
  induction bytes with
  | nil => rfl
  | cons b rest ih =>
    have hb := b.toNat_lt
    have hlow : UInt8.ofNat (b.toNat + 256 * toNat rest) = b := by
      rw [← UInt8.toNat_inj, UInt8.toNat_ofNat']
      omega
    have hhigh : (b.toNat + 256 * toNat rest) / 256 = toNat rest := by omega
    rw [List.length_cons, toNat, ofNat, hlow, hhigh, ih]

lemma ofWord32_word32 {bytes : Bytes} (h : 4 ≤ bytes.length) :
    ofWord32 (word32 bytes) = bytes.take 4 := by
  have hlength : (bytes.take 4).length = 4 := by rw [List.length_take, Nat.min_eq_left h]
  have hlt : toNat (bytes.take 4) < 2 ^ 32 := by
    have hlt := toNat_lt (bytes.take 4)
    rw [hlength] at hlt
    exact hlt
  have hbytes := ofNat_toNat (bytes.take 4)
  rw [hlength] at hbytes
  rw [ofWord32, word32, UInt32.toNat_ofNat', Nat.mod_eq_of_lt hlt, hbytes]

lemma ofWord64_word64 {bytes : Bytes} (h : 8 ≤ bytes.length) :
    ofWord64 (word64 bytes) = bytes.take 8 := by
  have hlength : (bytes.take 8).length = 8 := by rw [List.length_take, Nat.min_eq_left h]
  have hlt : toNat (bytes.take 8) < 2 ^ 64 := by
    have hlt := toNat_lt (bytes.take 8)
    rw [hlength] at hlt
    exact hlt
  have hbytes := ofNat_toNat (bytes.take 8)
  rw [hlength] at hbytes
  rw [ofWord64, word64, UInt64.toNat_ofNat', Nat.mod_eq_of_lt hlt, hbytes]

/-! ## Words inside longer strings -/

/-- A word in front of what comes after it. -/
lemma drop_eq_word32 {bytes : Bytes} (i : Nat) (h : i + 4 ≤ bytes.length) :
    bytes.drop i = ofWord32 (word32 (bytes.drop i)) ++ bytes.drop (i + 4) := by
  have hlength : 4 ≤ (bytes.drop i).length := by
    rw [List.length_drop]
    omega
  rw [ofWord32_word32 hlength, ← List.drop_drop, List.take_append_drop]

lemma drop_eq_word64 {bytes : Bytes} (i : Nat) (h : i + 8 ≤ bytes.length) :
    bytes.drop i = ofWord64 (word64 (bytes.drop i)) ++ bytes.drop (i + 8) := by
  have hlength : 8 ≤ (bytes.drop i).length := by
    rw [List.length_drop]
    omega
  rw [ofWord64_word64 hlength, ← List.drop_drop, List.take_append_drop]

/-- A word that lies before the cut is the same after it. -/
lemma word32_drop_take {i n : Nat} (h : i + 4 ≤ n) (bytes : Bytes) :
    word32 ((bytes.take n).drop i) = word32 (bytes.drop i) := by
  rw [word32, word32, List.drop_take, List.take_take, Nat.min_eq_left (by omega)]

lemma word64_drop_take {i n : Nat} (h : i + 8 ≤ n) (bytes : Bytes) :
    word64 ((bytes.take n).drop i) = word64 (bytes.drop i) := by
  rw [word64, word64, List.drop_take, List.take_take, Nat.min_eq_left (by omega)]

end Bytes

end ChangeTracking
