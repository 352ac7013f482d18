import ChangeTracking.Proofs.Bitmaps
import Mathlib.Data.List.Dedup
import Mathlib.Data.Nat.Bitwise

/-!
# The one form of a set of offsets

There are four ways to look at a set of offsets: to ask for a member, to list or to count the
members, and to take the bytes as they are.  They all show the set of the numbers that were put in
(`Bitmap.ofWords_canonical`), and it is the bytes that decide: a byte is made of its eight bits
(`Bitmap.eq_of_testBit`), and each bit says whether one number is a member.

How long the string of bytes is follows from the members too, since it grows only as far as a new
member needs (`Bitmap.size_bits_ofList_le`).  So no string has zero bytes at its end that another
one with the same members lacks, and two sets with the same members are the same
(`Bitmap.ofList_eq_iff`).
-/

namespace ChangeTracking

namespace Bitmap

/-! ## Single bits -/

/-- Bit `n % 8` of byte `n / 8`, counted from the least significant one; zero behind the end. -/
def bitAt (s : Bitmap) (n : Nat) : Bool := (s.toBytes.getD (n / 8) 0).toNat.testBit (n % 8)

lemma toNat_mask (n : Nat) : (mask n).toNat = 2 ^ (n % 8) := by
  have hall : ∀ bit : Fin 8, ((1 : UInt8) <<< UInt8.ofNat bit.val).toNat = 2 ^ bit.val := by decide
  exact hall ⟨n % 8, Nat.mod_lt n (by omega)⟩

lemma and_mask_ne_zero {byte : UInt8} {n : Nat} :
    byte &&& mask n ≠ 0 ↔ byte.toNat.testBit (n % 8) = true := by
  rw [Ne, ← UInt8.toNat_inj, UInt8.toNat_and, toNat_mask, Nat.and_two_pow]
  cases byte.toNat.testBit (n % 8) <;> simp

/-- A block is a member exactly if its bit is set. -/
lemma bitAt_eq_contains (s : Bitmap) (n : Nat) : s.bitAt n = s.contains n := by
  rw [Bool.eq_iff_iff, contains_iff, and_mask_ne_zero, bitAt, toBytes,
    List.getD_eq_getElem?_getD, Array.getElem?_toList]

/-- A byte is made of its eight bits. -/
lemma eq_of_testBit {a b : UInt8} (h : ∀ bit < 8, a.toNat.testBit bit = b.toNat.testBit bit) :
    a = b := by
  refine UInt8.toNat_inj.mp (Nat.eq_of_testBit_eq fun bit => ?_)
  by_cases hbit : bit < 8
  · exact h bit hbit
  · have hpow : 2 ^ 8 ≤ 2 ^ bit := Nat.pow_le_pow_right (by omega) (by omega)
    rw [Nat.testBit_lt_two_pow (a.toNat_lt.trans_le hpow),
      Nat.testBit_lt_two_pow (b.toNat_lt.trans_le hpow)]

/-- Strings of the same length with the same bits are the same. -/
lemma eq_of_bitAt {s s' : Bitmap} (hsize : s.bits.size = s'.bits.size)
    (hbits : ∀ n, s.bitAt n = s'.bitAt n) : s = s' := by
  obtain ⟨bits⟩ := s
  obtain ⟨bits'⟩ := s'
  refine congrArg Bitmap.mk (Array.ext hsize fun i hi hi' => eq_of_testBit fun bit hbit => ?_)
  have hbyte : (i * 8 + bit) / 8 = i := by omega
  have hmod : (i * 8 + bit) % 8 = bit := by omega
  have hsame := hbits (i * 8 + bit)
  simpa [bitAt, toBytes, hbyte, hmod, hi, hi'] using hsame

/-! ## Sets made from lists -/

variable {members members' : List Nat}

lemma size_bits_ofList_le {size : Nat} :
    (ofList members).bits.size ≤ size ↔ ∀ n ∈ members, n / 8 < size := by
  have hempty : empty.bits.size ≤ size := Nat.zero_le size
  rw [ofList, size_bits_foldl_insert, and_iff_right hempty]

/-- Only the members count, neither their order nor how often each comes. -/
theorem ofList_eq_iff : ofList members = ofList members' ↔ ∀ n, n ∈ members ↔ n ∈ members' := by
  constructor
  · intro heq n
    rw [← contains_ofList, heq, contains_ofList]
  · intro hsame
    refine eq_of_bitAt (Nat.le_antisymm ?_ ?_) fun n => ?_
    · exact size_bits_ofList_le.mpr fun n hn => size_bits_ofList_le.mp le_rfl n ((hsame n).mp hn)
    · exact size_bits_ofList_le.mpr fun n hn => size_bits_ofList_le.mp le_rfl n ((hsame n).mpr hn)
    · rw [bitAt_eq_contains, bitAt_eq_contains, Bool.eq_iff_iff, contains_ofList, contains_ofList,
        hsame n]

lemma isEmpty_ofList : (ofList members).isEmpty = true ↔ members = [] := by
  constructor
  · intro hempty
    refine List.eq_nil_iff_forall_not_mem.mpr fun n hn => ?_
    have hset := (contains_iff _ n).mp ((contains_ofList members n).mpr hn)
    cases hbyte : (ofList members).bits[n / 8]? with
    | none => exact hset (by simp [hbyte])
    | some byte =>
      obtain ⟨hlt, hget⟩ := Array.getElem?_eq_some_iff.mp hbyte
      have hzero := Array.all_eq_true.mp hempty (n / 8) hlt
      rw [hget, beq_iff_eq] at hzero
      exact hset (by simp [hbyte, hzero])
  · rintro rfl
    simp [ofList, empty, isEmpty]

/-- The string ends with the byte of the greatest member, in which that one's bit is set. -/
lemma getLast?_toBytes_ne_zero (members : List Nat) :
    (ofList members).toBytes.getLast? ≠ some 0 := by
  cases hmax : members.max? with
  | none =>
    rw [List.max?_eq_none_iff.mp hmax]
    simp [ofList, empty, toBytes]
  | some n =>
    obtain ⟨hmem, hgreatest⟩ := List.max?_eq_some_iff.mp hmax
    have hsize := size_bits_ofList hmem hgreatest
    have hset := (contains_iff _ n).mp ((contains_ofList members n).mpr hmem)
    intro hlast
    rw [toBytes, List.getLast?_eq_getElem?, Array.length_toList, hsize, Nat.add_sub_cancel,
      Array.getElem?_toList] at hlast
    exact hset (by simp [hlast])

lemma length_toBytes_ofList (members : List Nat) :
    (ofList members).toBytes.length
      = match members.max? with
        | none => 0
        | some greatest => greatest / 8 + 1 := by
  cases hmax : members.max? with
  | none =>
    rw [List.max?_eq_none_iff.mp hmax]
    rfl
  | some n =>
    obtain ⟨hmem, hgreatest⟩ := List.max?_eq_some_iff.mp hmax
    exact size_bits_ofList hmem hgreatest

/-! ## Numbers of 32 bits -/

/-- The members in ascending order, as they are worked out with numbers of 32 bits. -/
def toWords (s : Bitmap) : List UInt32 :=
  s.bits.toList.zipIdx.flatMap fun (byte, i) =>
    (bitsOf byte).map fun bit => UInt32.ofNat i * 8 + UInt32.ofNat bit

/-- As long as the string has a number for each bit, nothing is lost. -/
lemma map_toNat_toWords {s : Bitmap} (hsize : s.bits.size * 8 ≤ UInt32.size) :
    s.toWords.map UInt32.toNat = s.toList := by
  rw [toWords, toList, List.map_flatMap]
  refine List.flatMap_congr fun entry hbyte => ?_
  obtain ⟨byte, i⟩ := entry
  rw [List.map_map]
  refine List.map_congr_left fun bit hbit => ?_
  have hlt := (mem_bitsOf.mp hbit).1
  have hi : i < s.bits.size := by
    have hindex := List.mem_zipIdx hbyte
    simpa using hindex.2.1
  have hposition : i * 8 + bit < UInt32.size := by omega
  simp [UInt32.toNat_add, UInt32.toNat_mul]
  omega

/-- The set of the given numbers of 32 bits. -/
def ofWords (words : List UInt32) : Bitmap := ofList (words.map UInt32.toNat)

section Words

variable {words : List UInt32}

lemma toNat_mem_map {n : UInt32} : n.toNat ∈ words.map UInt32.toNat ↔ n ∈ words :=
  List.mem_map_of_injective fun _ _ => UInt32.toNat_inj.mp

lemma contains_ofWords {n : UInt32} : (ofWords words).contains n.toNat = true ↔ n ∈ words := by
  rw [ofWords, contains_ofList, toNat_mem_map]

/-- There are no more bits than there are numbers of 32 bits. -/
lemma size_bits_ofWords_le (words : List UInt32) : (ofWords words).bits.size * 8 ≤ UInt32.size := by
  have hbytes : (ofWords words).bits.size ≤ 2 ^ 29 := by
    refine size_bits_ofList_le.mpr fun n hn => ?_
    obtain ⟨word, -, rfl⟩ := List.mem_map.mp hn
    have hlt := word.toNat_lt
    omega
  have hsize : UInt32.size = 2 ^ 29 * 8 := rfl
  omega

lemma map_toNat_toWords_ofWords (words : List UInt32) :
    (ofWords words).toWords.map UInt32.toNat = (ofWords words).toList :=
  map_toNat_toWords (size_bits_ofWords_le words)

lemma mem_toWords {n : UInt32} : n ∈ (ofWords words).toWords ↔ n ∈ words := by
  rw [← toNat_mem_map, map_toNat_toWords_ofWords, mem_toList, contains_ofWords]

lemma pairwise_toWords (words : List UInt32) : (ofWords words).toWords.Pairwise (· < ·) := by
  have hordered := (ofWords words).pairwise_toList
  rw [← map_toNat_toWords_ofWords, List.pairwise_map] at hordered
  exact hordered

lemma size_ofWords (words : List UInt32) : (ofWords words).size = words.dedup.length := by
  have hperm : (ofWords words).toWords.Perm words.dedup := by
    refine (List.perm_ext_iff_of_nodup ((pairwise_toWords words).imp UInt32.ne_of_lt)
      (List.nodup_dedup words)).mpr fun n => ?_
    rw [mem_toWords, List.mem_dedup]
  rw [size_eq_length_toList, ← map_toNat_toWords_ofWords, List.length_map, hperm.length_eq]

/-- Only the members count, neither their order nor how often each comes. -/
lemma ofWords_eq_iff {words' : List UInt32} :
    ofWords words = ofWords words' ↔ ∀ n, n ∈ words ↔ n ∈ words' := by
  rw [ofWords, ofWords, ofList_eq_iff]
  constructor
  · intro hsame n
    rw [← toNat_mem_map, hsame, toNat_mem_map]
  · intro hsame n
    simp only [List.mem_map, hsame]

/-- **A bitmap is the set of what was put into it.**  Whatever 32-bit numbers are put in, in
whatever order and however often: a number is a member exactly if it was put in; listed with 32-bit
arithmetic, in which nothing is lost, the members are these numbers in ascending order, and as many
as are counted; the bytes reach to that of the greatest member, which is not zero, and have just the
bits of the members set.  So pagemaps of one path are the same exactly if they have the same
members. -/
theorem ofWords_canonical (words : List UInt32) :
    (∀ n : UInt32, (ofWords words).contains n.toNat = true ↔ n ∈ words) ∧
    ((ofWords words).toWords.Pairwise (· < ·) ∧ (∀ n, n ∈ (ofWords words).toWords ↔ n ∈ words) ∧
      (ofWords words).toWords.map UInt32.toNat = (ofWords words).toList) ∧
    (ofWords words).size = words.dedup.length ∧
    ((ofWords words).isEmpty = true ↔ words = []) ∧
    ((ofWords words).toBytes.length = match (words.map UInt32.toNat).max? with
      | none => 0
      | some greatest => greatest / 8 + 1) ∧
    (∀ n : UInt32, (ofWords words).bitAt n.toNat = true ↔ n ∈ words) ∧
    (ofWords words).toBytes.getLast? ≠ some 0 ∧
    ∀ path words', Pagemap.mk path (ofWords words) = Pagemap.mk path (ofWords words') ↔
      ∀ n, n ∈ words ↔ n ∈ words' := by
  refine ⟨fun n => contains_ofWords,
    ⟨pairwise_toWords words, fun n => mem_toWords, map_toNat_toWords_ofWords words⟩,
    size_ofWords words, ?_, length_toBytes_ofList _, fun n => ?_, getLast?_toBytes_ne_zero _,
    fun path words' => ?_⟩
  · rw [ofWords, isEmpty_ofList, List.map_eq_nil_iff]
  · rw [bitAt_eq_contains, contains_ofWords]
  · rw [Pagemap.mk.injEq, and_iff_right rfl, ofWords_eq_iff]

example : (ofWords [9, 3, 0, 3]).toBytes = [0b00001001, 0b00000010] ∧
    (ofWords [9, 3, 0, 3]).toWords = [0, 3, 9] ∧ (ofWords [9, 3, 0, 3]).size = 3 := by
  decide +kernel

end Words

end Bitmap

end ChangeTracking
