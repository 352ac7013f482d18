import ChangeTracking.Proofs.LsnText
import Mathlib.Data.List.Induction

/-!
# Numerals and their values

What is written by a numeral, said without a reader: a digit is its place in the list of digits, and
each further digit counts its place once and all before it once more per digit of the base
(`Numeral`).  A sign may come first, and zeros in front do no harm (`Signed`).

The reader goes through the digits from the front, while a numeral is put together at its end.  Both
come to the same (`readNumeral?_eq_some_iff`), as what is read from the last digit on is read from
the value of those before it.
-/

namespace ChangeTracking.Text

/-- The digits of base sixteen, with small letters. -/
def smallDigits : List Char := "0123456789abcdef".toList

/-- The digits of base sixteen, with capital letters. -/
def capitalDigits : List Char := "0123456789ABCDEF".toList

/-- A digit of the given base and its value. -/
structure IsDigit (base : Nat) (c : Char) (digit : Nat) : Prop where
  lt_base : digit < base
  place : smallDigits[digit]? = some c ∨ capitalDigits[digit]? = some c

/-- One or more digits, and the number that they write. -/
inductive Numeral (base : Nat) : List Char → Nat → Prop
  | digit {c : Char} {digit : Nat} (h : IsDigit base c digit) : Numeral base [c] digit
  | snoc {digits : List Char} {n : Nat} {c : Char} {digit : Nat} (hdigits : Numeral base digits n)
      (h : IsDigit base c digit) : Numeral base (digits ++ [c]) (n * base + digit)

/-- A numeral with or without a plus sign. -/
inductive Signed (base : Nat) : List Char → Nat → Prop
  | bare {digits : List Char} {n : Nat} (h : Numeral base digits n) : Signed base digits n
  | plus {digits : List Char} {n : Nat} (h : Numeral base digits n) : Signed base ('+' :: digits) n

/-! ## Digits -/

lemma digitValue?_eq_some_iff {c : Char} {digit : Nat} :
    digitValue? c = some digit ↔ smallDigits[digit]? = some c ∨ capitalDigits[digit]? = some c := by
  constructor
  · intro h
    have hall : ∀ code : Fin 128, ∀ digit ∈ digitValue? (Char.ofNat code.val),
        smallDigits[digit]? = some (Char.ofNat code.val) ∨
          capitalDigits[digit]? = some (Char.ofNat code.val) := by
      decide
    have hdigit : digitIn? (digit + 1) c = some digit := by simp [digitIn?, h]
    have hascii := (range_of_digitIn? hdigit).2
    have hplace := hall ⟨c.toNat, by omega⟩ digit
    rw [Char.ofNat_toNat] at hplace
    exact hplace h
  · have hall : ∀ d : Fin 16, smallDigits[d.val]?.bind digitValue? = some d.val ∧
        capitalDigits[d.val]?.bind digitValue? = some d.val := by
      decide
    have hlength : smallDigits.length = 16 ∧ capitalDigits.length = 16 := ⟨rfl, rfl⟩
    rintro (h | h)
    · have hlt : digit < 16 := hlength.1 ▸ (List.getElem?_eq_some_iff.mp h).1
      simpa [h] using (hall ⟨digit, hlt⟩).1
    · have hlt : digit < 16 := hlength.2 ▸ (List.getElem?_eq_some_iff.mp h).1
      simpa [h] using (hall ⟨digit, hlt⟩).2

lemma isDigit_iff_digitIn? {base digit : Nat} {c : Char} :
    IsDigit base c digit ↔ digitIn? base c = some digit := by
  rw [digitIn?, Option.filter_eq_some_iff, digitValue?_eq_some_iff, decide_eq_true_eq]
  exact ⟨fun h => ⟨h.place, h.lt_base⟩, fun h => ⟨h.2, h.1⟩⟩

/-! ## Numerals -/

variable {base n : Nat} {digits text : List Char}

lemma readFrom?_snoc {value : Nat} {c : Char} :
    readFrom? base value (digits ++ [c]) = some n ↔
      ∃ before digit, readFrom? base value digits = some before ∧ IsDigit base c digit ∧
        before * base + digit = n := by
  simp only [readFrom?_append, Option.bind_eq_some_iff, isDigit_iff_digitIn?]
  constructor
  · rintro ⟨before, hbefore, hlast⟩
    rw [readFrom?] at hlast
    cases hdigit : digitIn? base c with
    | none => simp [hdigit] at hlast
    | some digit =>
      rw [hdigit] at hlast
      exact ⟨before, digit, hbefore, rfl, Option.some.inj hlast⟩
  · rintro ⟨before, digit, hbefore, hdigit, rfl⟩
    exact ⟨before, hbefore, by simp [readFrom?, hdigit]⟩

theorem readNumeral?_eq_some_iff : readNumeral? base digits = some n ↔ Numeral base digits n := by
  rw [readNumeral?_eq_some]
  constructor
  · rintro ⟨hne, hread⟩
    -- from the end, where a numeral is put together
    induction digits using List.reverseRecOn generalizing n with
    | nil => exact absurd rfl hne
    | append_singleton digits c ih =>
      obtain ⟨before, digit, hbefore, hdigit, rfl⟩ := readFrom?_snoc.mp hread
      by_cases hfirst : digits = []
      · subst hfirst
        obtain rfl : before = 0 := (Option.some.inj hbefore).symm
        simpa using Numeral.digit hdigit
      · exact .snoc (ih hfirst hbefore) hdigit
  · intro h
    induction h with
    | digit h => exact ⟨List.cons_ne_nil _ _, by simp [readFrom?, isDigit_iff_digitIn?.mp h]⟩
    | snoc _ h ih => exact ⟨by simp, readFrom?_snoc.mpr ⟨_, _, ih.2, h, rfl⟩⟩

theorem readSigned?_eq_some_iff : readSigned? base text = some n ↔ Signed base text n := by
  constructor
  · intro h
    unfold readSigned? at h
    split at h
    · exact .plus (readNumeral?_eq_some_iff.mp h)
    · exact .bare (readNumeral?_eq_some_iff.mp h)
  · rintro (h | h)
    · exact readSigned?_of_readNumeral? (readNumeral?_eq_some_iff.mpr h)
    · exact readNumeral?_eq_some_iff.mpr h

end ChangeTracking.Text
