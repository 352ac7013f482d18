import ChangeTracking.Bytes.Crc32c
import ChangeTracking.Proofs.Words
import Mathlib.Logic.Function.Iterate

/-!
# Checksums see short damage

A move of the register is linear in exclusive or (`shift_xor`) and loses nothing
(`shift_injective`): the polynomial has its top bit set, so the bit that falls out can be told from
the top bit.  So two strings with different registers somewhere keep them different over all bytes
that they share after that (`run_injective`).

Up to four bytes fit into the register at once.  Feeding them is to add the number they stand for
and to move that many bytes on (`run_eq_iterate`), so other bytes in their place leave another
register behind.  Together, no checksum stays the same when up to four bytes in a row are replaced,
wherever they are and whatever comes before and after (`eq_of_checksum_eq`).
-/

namespace ChangeTracking.Crc32c

open Bytes

/-! ## Moves of the register -/

lemma low_bit_cases (r : UInt32) : r &&& 1 = 0 ∨ r &&& 1 = 1 := by
  rw [← UInt32.toNat_inj, ← UInt32.toNat_inj, UInt32.toNat_and]
  change r.toNat &&& 1 = 0 ∨ r.toNat &&& 1 = 1
  rw [Nat.and_one_is_mod]
  exact Nat.mod_two_eq_zero_or_one _

lemma low_bit_xor (a b : UInt32) : (a ^^^ b) &&& 1 = (a &&& 1) ^^^ (b &&& 1) := by
  rw [← UInt32.toNat_inj]
  simp only [UInt32.toNat_and, UInt32.toNat_xor, Nat.and_xor_distrib_right]

lemma toNat_shiftRight_one (r : UInt32) : (r >>> 1).toNat = r.toNat / 2 := by
  rw [UInt32.toNat_shiftRight]
  exact Nat.shiftRight_eq_div_pow _ 1

lemma shift_of_low_bit_zero {r : UInt32} (h : r &&& 1 = 0) : shift r = r >>> 1 := by
  rw [shift, if_neg (by rw [h]; decide)]

lemma shift_of_low_bit_one {r : UInt32} (h : r &&& 1 = 1) :
    shift r = (r >>> 1) ^^^ polynomial := by
  rw [shift, if_pos h]

lemma shift_xor (a b : UInt32) : shift (a ^^^ b) = shift a ^^^ shift b := by
  have hlow := low_bit_xor a b
  have hmoved : (a ^^^ b) >>> 1 = a >>> 1 ^^^ b >>> 1 := UInt32.shiftRight_xor
  rcases low_bit_cases a with ha | ha <;> rcases low_bit_cases b with hb | hb <;>
    rw [ha, hb] at hlow
  · rw [shift_of_low_bit_zero hlow, shift_of_low_bit_zero ha, shift_of_low_bit_zero hb, hmoved]
  · rw [shift_of_low_bit_one hlow, shift_of_low_bit_zero ha, shift_of_low_bit_one hb, hmoved,
      UInt32.xor_assoc]
  · rw [shift_of_low_bit_one hlow, shift_of_low_bit_one ha, shift_of_low_bit_zero hb, hmoved]
    ac_rfl
  · rw [shift_of_low_bit_zero hlow, shift_of_low_bit_one ha, shift_of_low_bit_one hb, hmoved]
    -- the polynomial is added on both sides and cancels
    calc a >>> 1 ^^^ b >>> 1
        = (a >>> 1 ^^^ b >>> 1) ^^^ (polynomial ^^^ polynomial) := by
          rw [UInt32.xor_self, UInt32.xor_zero]
      _ = (a >>> 1 ^^^ polynomial) ^^^ (b >>> 1 ^^^ polynomial) := by ac_rfl

/-- Only the empty register becomes empty. -/
lemma shift_eq_zero {r : UInt32} (h : shift r = 0) : r = 0 := by
  have hlt := r.toNat_lt
  rcases low_bit_cases r with hr | hr
  · rw [shift_of_low_bit_zero hr, ← UInt32.toNat_inj, toNat_shiftRight_one] at h
    rw [← UInt32.toNat_inj, UInt32.toNat_and] at hr
    have heven : r.toNat % 2 = 0 := (Nat.and_one_is_mod r.toNat).symm.trans hr
    rw [← UInt32.toNat_inj]
    change r.toNat / 2 = 0 at h
    change r.toNat = 0
    omega
  · -- what was moved down has no top bit, the polynomial has one
    rw [shift_of_low_bit_one hr, UInt32.xor_eq_zero_iff, ← UInt32.toNat_inj,
      toNat_shiftRight_one] at h
    change r.toNat / 2 = 0x82f63b78 at h
    omega

lemma shift_injective : Function.Injective shift := by
  intro a b h
  rw [← UInt32.xor_eq_zero_iff]
  apply shift_eq_zero
  rw [shift_xor, h, UInt32.xor_self]

/-- A register whose low bit is empty only moves down. -/
lemma shift_double {n : Nat} (h : 2 * n < 2 ^ 32) : shift (.ofNat (2 * n)) = .ofNat n := by
  have hlow : UInt32.ofNat (2 * n) &&& 1 = 0 := by
    rw [← UInt32.toNat_inj, UInt32.toNat_and, UInt32.toNat_ofNat', Nat.mod_eq_of_lt h]
    exact (Nat.and_one_is_mod _).trans (Nat.mul_mod_right 2 n)
  rw [shift_of_low_bit_zero hlow, ← UInt32.toNat_inj, toNat_shiftRight_one, UInt32.toNat_ofNat',
    UInt32.toNat_ofNat', Nat.mod_eq_of_lt h]
  omega

lemma shiftByte_xor (a b : UInt32) : shiftByte (a ^^^ b) = shiftByte a ^^^ shiftByte b := by
  simp only [shiftByte, shift_xor]

lemma shiftByte_injective : Function.Injective shiftByte := by
  intro a b h
  iterate 8 apply shift_injective
  exact h

lemma shiftByte_mul {n : Nat} (h : 256 * n < 2 ^ 32) :
    shiftByte (.ofNat (256 * n)) = .ofNat n := by
  have hmul : 256 * n = 2 * (2 * (2 * (2 * (2 * (2 * (2 * (2 * n))))))) := by omega
  rw [shiftByte, hmul]
  iterate 8 rw [shift_double (by omega)]

/-! ## Strings of bytes -/

lemma feed_injective (b : UInt8) : Function.Injective (feed · b) := by
  intro r s h
  exact (UInt32.xor_left_inj _).mp (shiftByte_injective h)

/-- Registers that differ go on to differ. -/
lemma run_injective (bytes : Bytes) : Function.Injective (run · bytes) := by
  induction bytes with
  | nil =>
    intro r s h
    exact h
  | cons b rest ih =>
    intro r s h
    exact feed_injective b (ih h)

/-- A byte and what stands above it are added without a carry. -/
lemma toUInt32_xor_mul (b : UInt8) (n : Nat) :
    b.toUInt32 ^^^ .ofNat (256 * n) = .ofNat (b.toNat + 256 * n) := by
  have hb : b.toNat < 2 ^ 8 := b.toNat_lt
  have hlow : (b.toNat ^^^ 2 ^ 8 * n) % 2 ^ 8 = b.toNat := by
    rw [Nat.xor_mod_two_pow, Nat.mul_mod_right, Nat.xor_zero, Nat.mod_eq_of_lt hb]
  have hhigh : (b.toNat ^^^ 2 ^ 8 * n) / 2 ^ 8 = n := by
    rw [Nat.xor_div_two_pow, Nat.div_eq_of_lt hb, Nat.zero_xor,
      Nat.mul_div_cancel_left n (by decide)]
  have hsum : b.toNat ^^^ 2 ^ 8 * n = b.toNat + 256 * n := by omega
  have hword : b.toUInt32 = .ofNat b.toNat := by
    rw [← UInt32.toNat_inj, UInt8.toNat_toUInt32, UInt32.toNat_ofNat']
    omega
  rw [hword, ← UInt32.ofNat_xor]
  exact congrArg UInt32.ofNat hsum

/-- Up to four bytes go into the register at once, as the number that they stand for. -/
lemma run_eq_iterate {bytes : Bytes} (h : bytes.length ≤ 4) (r : UInt32) :
    run r bytes = shiftByte^[bytes.length] (r ^^^ .ofNat (Bytes.toNat bytes)) := by
  induction bytes generalizing r with
  | nil => simp [run, Bytes.toNat]
  | cons b rest ih =>
    rw [List.length_cons] at h
    have hlt : 256 * Bytes.toNat rest < 2 ^ 32 := by
      have hrest := toNat_lt rest
      have hpow : 256 ^ rest.length ≤ 256 ^ 3 := Nat.pow_le_pow_right (by decide) (by omega)
      omega
    calc run r (b :: rest)
        = run (shiftByte (r ^^^ b.toUInt32)) rest := rfl
      _ = shiftByte^[rest.length] (shiftByte (r ^^^ b.toUInt32) ^^^ .ofNat (Bytes.toNat rest)) :=
          ih (by omega) _
      _ = shiftByte^[rest.length] (shiftByte (r ^^^ .ofNat (Bytes.toNat (b :: rest)))) := by
          rw [← shiftByte_mul hlt, ← shiftByte_xor, UInt32.xor_assoc, toUInt32_xor_mul, Bytes.toNat]
      _ = shiftByte^[(b :: rest).length] (r ^^^ .ofNat (Bytes.toNat (b :: rest))) := by
          rw [List.length_cons, Function.iterate_succ_apply]

lemma eq_of_run_eq {a b : Bytes} (hlength : a.length = b.length) (hshort : a.length ≤ 4)
    {r : UInt32} (h : run r a = run r b) : a = b := by
  have hlt : ∀ bytes : Bytes, bytes.length ≤ 4 → Bytes.toNat bytes < 2 ^ 32 := by
    intro bytes hbytes
    have hbound := toNat_lt bytes
    have hpow : 256 ^ bytes.length ≤ 256 ^ 4 := Nat.pow_le_pow_right (by decide) hbytes
    omega
  rw [run_eq_iterate hshort, run_eq_iterate (hlength ▸ hshort), hlength] at h
  have hword := (UInt32.xor_right_inj r).mp (shiftByte_injective.iterate _ h)
  rw [← UInt32.toNat_inj, UInt32.toNat_ofNat', UInt32.toNat_ofNat', Nat.mod_eq_of_lt (hlt a hshort),
    Nat.mod_eq_of_lt (hlt b (hlength ▸ hshort))] at hword
  rw [← ofNat_toNat a, ← ofNat_toNat b, hlength, hword]

/-- **Checksums see short damage.**  If up to four bytes in a row are replaced by as many others,
the checksum is another one. -/
theorem eq_of_checksum_eq {before a b after : Bytes} (hlength : a.length = b.length)
    (hshort : a.length ≤ 4)
    (h : checksum (before ++ a ++ after) = checksum (before ++ b ++ after)) : a = b := by
  rw [checksum, checksum, UInt32.not_inj, run_append, run_append, run_append, run_append] at h
  exact eq_of_run_eq hlength hshort (run_injective after h)

end ChangeTracking.Crc32c
