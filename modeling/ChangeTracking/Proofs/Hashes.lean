import ChangeTracking.Block.Hash
import Mathlib.Data.FinEnum
import Mathlib.Data.Nat.ModEq
import Mathlib.Data.Nat.Prime.Basic
import Mathlib.Tactic.Ring

/-!
# Near neighbours have different hashes

Stirring is a permutation of the words (`stir_bijective`), since each of its steps can be undone.
Multiplying by an odd constant can, because the constant has no divisor in common with the number of
words.  Folding down can as well, although that does not show at once: a word that is folded twice over
the same distance is the word folded once over twice the distance (`foldDown_foldDown`), so doing it
often enough folds over more bits than there are, and that is to do nothing.

The hash takes in three words one after another, and only the last thing done with each is not a
permutation of what was there before.  So where two blocks have the same two of the three words, the
third can be recovered from the hash.  The words in turn determine what was packed into them
(`halves_inj`), as neither half of a word reaches into the other.
-/

namespace ChangeTracking

/-! ## Stirring can be undone -/

/-- The upper bits of a number folded down by `n`. -/
def foldDown (n x : ℕ) : ℕ := x ^^^ (x >>> n)

lemma foldDown_foldDown (n x : ℕ) : foldDown n (foldDown n x) = foldDown (2 * n) x := by
  have hshift : (x ^^^ (x >>> n)) >>> n = (x >>> n) ^^^ (x >>> (2 * n)) := by
    rw [Nat.shiftRight_xor_distrib, ← Nat.shiftRight_add, Nat.two_mul]
  calc foldDown n (foldDown n x)
      = (x ^^^ (x >>> n)) ^^^ ((x >>> n) ^^^ (x >>> (2 * n))) := by
        rw [foldDown, foldDown, hshift]
    _ = x ^^^ (x >>> (2 * n)) := by
        rw [Nat.xor_assoc, ← Nat.xor_assoc (x >>> n), Nat.xor_self, Nat.zero_xor]

/-- Folding over all bits of a number changes nothing. -/
lemma foldDown_of_lt {n x : ℕ} (h : x < 2 ^ n) : foldDown n x = x := by
  rw [foldDown, Nat.shiftRight_eq_div_pow, Nat.div_eq_of_lt h, Nat.xor_zero]

lemma foldDown_inj {n x y : ℕ} (hn : 0 < n) (hx : x < 2 ^ 64) (hy : y < 2 ^ 64)
    (h : foldDown n x = foldDown n y) : x = y := by
  -- the distance can be doubled until it is greater than the length of a word
  have hdoubled : ∀ m, foldDown (n * 2 ^ m) x = foldDown (n * 2 ^ m) y := by
    intro m
    induction m with
    | zero => simpa using h
    | succ m ih =>
      have htwice : n * 2 ^ (m + 1) = 2 * (n * 2 ^ m) := by ring
      rw [htwice, ← foldDown_foldDown, ← foldDown_foldDown, ih]
  have hfar : 2 ^ 64 ≤ 2 ^ (n * 2 ^ 6) := Nat.pow_le_pow_right (by omega) (by omega)
  have hlast := hdoubled 6
  rwa [foldDown_of_lt (hx.trans_le hfar), foldDown_of_lt (hy.trans_le hfar)] at hlast

lemma xor_shiftRight_injective {n : UInt64} (hn : 0 < n.toNat % 64) :
    Function.Injective fun z : UInt64 => z ^^^ (z >>> n) := by
  intro y z h
  have hfold : ∀ w : UInt64, (w ^^^ (w >>> n)).toNat = foldDown (n.toNat % 64) w.toNat := by
    intro w
    rw [UInt64.toNat_xor, UInt64.toNat_shiftRight, foldDown]
  apply UInt64.toNat_inj.mp
  apply foldDown_inj hn y.toNat_lt z.toNat_lt
  rw [← hfold, ← hfold]
  exact congrArg UInt64.toNat h

lemma mul_injective_of_odd {a : UInt64} (ha : Odd a.toNat) :
    Function.Injective fun z : UInt64 => z * a := by
  intro y z h
  have hcoprime : Nat.gcd (2 ^ 64) a.toNat = 1 :=
    Nat.Coprime.pow_left 64 (Nat.coprime_two_left.mpr ha)
  have hproducts : y.toNat * a.toNat ≡ z.toNat * a.toNat [MOD 2 ^ 64] := by
    rw [Nat.ModEq, ← UInt64.toNat_mul, ← UInt64.toNat_mul]
    exact congrArg UInt64.toNat h
  have hcongr := Nat.ModEq.cancel_right_of_coprime hcoprime hproducts
  exact UInt64.toNat_inj.mp (hcongr.eq_of_lt_of_lt y.toNat_lt z.toNat_lt)

lemma stir_injective : Function.Injective stir := by
  have hfirst : Odd (0xbf58476d1ce4e5b9 : UInt64).toNat := Nat.odd_iff.mpr rfl
  have hsecond : Odd (0x94d049bb133111eb : UInt64).toNat := Nat.odd_iff.mpr rfl
  intro y z h
  apply xor_shiftRight_injective (n := 30) (by decide)
  apply mul_injective_of_odd hfirst
  apply xor_shiftRight_injective (n := 27) (by decide)
  apply mul_injective_of_odd hsecond
  apply xor_shiftRight_injective (n := 31) (by decide)
  exact h

theorem stir_bijective : Function.Bijective stir := stir_injective.bijective_of_finite

/-! ## What is packed into the words -/

/-- Two numbers below 2^32 in the halves of a word. -/
lemma toNat_halves {low high : UInt64} (hlow : low.toNat < 2 ^ 32) (hhigh : high.toNat < 2 ^ 32) :
    (low ||| (high <<< 32)).toNat = 2 ^ 32 * high.toNat + low.toNat := by
  have hshift : (high <<< 32).toNat = 2 ^ 32 * high.toNat := by
    have hmod : (32 : UInt64).toNat % 64 = 32 := rfl
    rw [UInt64.toNat_shiftLeft, hmod, Nat.shiftLeft_eq, Nat.mod_eq_of_lt (by omega), Nat.mul_comm]
  rw [UInt64.toNat_or, hshift, Nat.or_comm, ← Nat.two_pow_add_eq_or_of_lt hlow]

lemma halves_inj {low low' high high' : UInt64} (hlow : low.toNat < 2 ^ 32)
    (hlow' : low'.toNat < 2 ^ 32) (hhigh : high.toNat < 2 ^ 32) (hhigh' : high'.toNat < 2 ^ 32)
    (h : low ||| (high <<< 32) = low' ||| (high' <<< 32)) : low = low' ∧ high = high' := by
  have hnat := congrArg UInt64.toNat h
  rw [toNat_halves hlow hhigh, toNat_halves hlow' hhigh'] at hnat
  exact ⟨UInt64.toNat_inj.mp (by omega), UInt64.toNat_inj.mp (by omega)⟩

lemma toNat_toUInt64_lt (w : UInt32) : w.toUInt64.toNat < 2 ^ 32 := by
  rw [UInt32.toNat_toUInt64]
  exact w.toNat_lt

lemma toUInt64_injective : Function.Injective UInt32.toUInt64 := by
  intro v w h
  have hnat := congrArg UInt64.toNat h
  rw [UInt32.toNat_toUInt64, UInt32.toNat_toUInt64] at hnat
  exact UInt32.toNat_inj.mp hnat

namespace Fork

lemma toNat_index_lt (f : Fork) : f.index.toNat < 2 ^ 32 := by
  cases f <;> decide

lemma index_injective : Function.Injective index := by
  intro f g h
  cases f <;> cases g <;> trivial

end Fork

namespace Block

variable {b c : Block}

/-- Where the block's relation is stored: the tablespace and the database. -/
def home (b : Block) : Oid × Oid := (b.relation.tablespace, b.relation.database)

/-- What the block is part of there: the relation's number and the fork. -/
def part (b : Block) : Oid × Fork := (b.relation.number, b.fork)

lemma placeWord_eq_iff : b.placeWord = c.placeWord ↔ b.home = c.home := by
  constructor
  · intro h
    obtain ⟨htablespace, hdatabase⟩ := halves_inj (toNat_toUInt64_lt _) (toNat_toUInt64_lt _)
      (toNat_toUInt64_lt _) (toNat_toUInt64_lt _) h
    exact Prod.ext (toUInt64_injective htablespace) (toUInt64_injective hdatabase)
  · intro h
    obtain ⟨htablespace, hdatabase⟩ := Prod.mk.inj h
    rw [placeWord, placeWord, htablespace, hdatabase]

lemma forkWord_eq_iff : b.forkWord = c.forkWord ↔ b.part = c.part := by
  constructor
  · intro h
    obtain ⟨hrelation, hfork⟩ := halves_inj (toNat_toUInt64_lt _) (toNat_toUInt64_lt _)
      b.fork.toNat_index_lt c.fork.toNat_index_lt h
    exact Prod.ext (toUInt64_injective hrelation) (Fork.index_injective hfork)
  · intro h
    obtain ⟨hrelation, hfork⟩ := Prod.mk.inj h
    rw [forkWord, forkWord, hrelation, hfork]

/-! ## The hash of neighbours -/

/-- The names of two blocks differ in just one of the three groups that the hash takes in. -/
inductive Neighbours (b c : Block) : Prop
  | home (hhome : b.home ≠ c.home) (hpart : b.part = c.part) (hnumber : b.number = c.number)
  | part (hhome : b.home = c.home) (hpart : b.part ≠ c.part) (hnumber : b.number = c.number)
  | number (hhome : b.home = c.home) (hpart : b.part = c.part) (hnumber : b.number ≠ c.number)

/-- What is mixed into a hash before the last stirring is known if the hash is. -/
lemma hash_eq_iff : b.hash = c.hash ↔
    stir (stir b.placeWord ^^^ b.forkWord) ^^^ b.number.toUInt64
      = stir (stir c.placeWord ^^^ c.forkWord) ^^^ c.number.toUInt64 :=
  stir_injective.eq_iff

lemma hash_ne_of_neighbours (h : Neighbours b c) : b.hash ≠ c.hash := by
  rw [Ne, hash_eq_iff]
  cases h with
  | home hhome hpart hnumber =>
    rw [hnumber, UInt64.xor_left_inj, stir_injective.eq_iff, forkWord_eq_iff.mpr hpart,
      UInt64.xor_left_inj, stir_injective.eq_iff, placeWord_eq_iff]
    exact hhome
  | part hhome hpart hnumber =>
    rw [hnumber, UInt64.xor_left_inj, stir_injective.eq_iff, placeWord_eq_iff.mpr hhome,
      UInt64.xor_right_inj, forkWord_eq_iff]
    exact hpart
  | number hhome hpart hnumber =>
    rw [placeWord_eq_iff.mpr hhome, forkWord_eq_iff.mpr hpart, UInt64.xor_right_inj,
      toUInt64_injective.eq_iff]
    exact hnumber

/-- **Near neighbours have different hashes.**  Stirring is a permutation of the words.  Two blocks
whose names differ in just one of the three groups (where the relation is stored; which relation and
fork; which block) have different hashes.  So no two blocks of a fork have the same hash, no two forks
or relations of a database have it for the block of the same number, and neither has the same block of
the same fork in two databases or tablespaces. -/
theorem hash_separates_neighbours :
    Function.Bijective stir ∧
    (∀ b c : Block, Neighbours b c → b.hash ≠ c.hash) ∧
    (∀ relation fork, Function.Injective fun number => (Block.mk relation fork number).hash) ∧
    (∀ tablespace database number, Function.Injective fun part : Oid × Fork =>
      (Block.mk ⟨tablespace, database, part.1⟩ part.2 number).hash) ∧
    ∀ relation fork number, Function.Injective fun home : Oid × Oid =>
      (Block.mk ⟨home.1, home.2, relation⟩ fork number).hash := by
  refine ⟨stir_bijective, fun b c h => hash_ne_of_neighbours h, ?_, ?_, ?_⟩
  · intro relation fork n m h
    by_contra hne
    have hneighbours : Neighbours ⟨relation, fork, n⟩ ⟨relation, fork, m⟩ := .number rfl rfl hne
    exact hash_ne_of_neighbours hneighbours h
  · intro tablespace database number p q h
    by_contra hne
    have hneighbours : Neighbours ⟨⟨tablespace, database, p.1⟩, p.2, number⟩
        ⟨⟨tablespace, database, q.1⟩, q.2, number⟩ := .part rfl hne rfl
    exact hash_ne_of_neighbours hneighbours h
  · intro relation fork number p q h
    by_contra hne
    have hneighbours : Neighbours ⟨⟨p.1, p.2, relation⟩, fork, number⟩
        ⟨⟨q.1, q.2, relation⟩, fork, number⟩ := .home hne rfl rfl
    exact hash_ne_of_neighbours hneighbours h

/-- The same block of the main fork and of the free space map. -/
theorem hash_separates_neighbours_forks :
    Neighbours ⟨⟨1663, 5, 16384⟩, .main, 0⟩ ⟨⟨1663, 5, 16384⟩, .freeSpace, 0⟩ ∧
    hash ⟨⟨1663, 5, 16384⟩, .main, 0⟩ ≠ hash ⟨⟨1663, 5, 16384⟩, .freeSpace, 0⟩ := by
  have hneighbours :
      Neighbours ⟨⟨1663, 5, 16384⟩, .main, 0⟩ ⟨⟨1663, 5, 16384⟩, .freeSpace, 0⟩ :=
    .part rfl (by decide) rfl
  exact ⟨hneighbours, hash_separates_neighbours.2.1 _ _ hneighbours⟩

end Block

end ChangeTracking
