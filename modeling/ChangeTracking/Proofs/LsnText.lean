import ChangeTracking.Lsn.Text
import ChangeTracking.Proofs.Names

/-!
# Positions as text

Both forms of a position name the position that they were written from: the two halves in base
sixteen (`Lsn.parse_render`) and the one decimal number (`Lsn.parse_decimal`).  What is written is
made of digits and a slash, so that no blank is there to be trimmed and no sign to be passed over.
-/

namespace ChangeTracking

namespace Text

/-! ## Digits in any base -/

lemma isBlank_eq_false {c : Char} (hlow : 0x21 ≤ c.toNat) (hhigh : c.toNat ≤ 0x7e) :
    isBlank c = false := by
  simp only [isBlank, blankRanges, List.any_cons, List.any_nil, Bool.or_false, Bool.or_eq_false_iff,
    Bool.and_eq_false_iff, decide_eq_false_iff_not]
  omega

/-- A digit is a letter or a decimal digit, and neither a blank nor a sign. -/
lemma range_of_digitIn? {base digit : Nat} {c : Char} (h : digitIn? base c = some digit) :
    0x30 ≤ c.toNat ∧ c.toNat ≤ 0x66 := by
  have hvalue := (Option.filter_eq_some_iff.mp h).1
  unfold digitValue? at hvalue
  split at hvalue
  · next hdigit =>
    have hlow : 0x30 ≤ c.toNat := hdigit.1
    have hhigh : c.toNat ≤ 0x39 := hdigit.2
    omega
  · split at hvalue
    · next hsmall =>
      have hlow : 0x61 ≤ c.toNat := hsmall.1
      have hhigh : c.toNat ≤ 0x66 := hsmall.2
      omega
    · split at hvalue
      · next hcapital =>
        have hlow : 0x41 ≤ c.toNat := hcapital.1
        have hhigh : c.toNat ≤ 0x46 := hcapital.2
        omega
      · cases hvalue

section Digits

variable {base value n : Nat} {digits : List Char}

lemma exists_digitIn?_of_readFrom? (h : readFrom? base value digits = some n) :
    ∀ c ∈ digits, ∃ digit, digitIn? base c = some digit := by
  induction digits generalizing value with
  | nil => simp
  | cons c rest ih =>
    rw [readFrom?] at h
    cases hdigit : digitIn? base c with
    | none => simp [hdigit] at h
    | some digit =>
      rw [hdigit] at h
      intro d hd
      rcases List.mem_cons.mp hd with rfl | hrest
      · exact ⟨digit, hdigit⟩
      · exact ih h d hrest

lemma readNumeral?_eq_some :
    readNumeral? base digits = some n ↔ digits ≠ [] ∧ readFrom? base 0 digits = some n := by
  cases digits with
  | nil => simp [readNumeral?]
  | cons c rest => simp [readNumeral?]

/-- All that is written in a numeral is a digit. -/
lemma range_of_mem_numeral (h : readNumeral? base digits = some n) {c : Char} (hc : c ∈ digits) :
    0x30 ≤ c.toNat ∧ c.toNat ≤ 0x66 := by
  obtain ⟨digit, hdigit⟩ := exists_digitIn?_of_readFrom? (readNumeral?_eq_some.mp h).2 c hc
  exact range_of_digitIn? hdigit

lemma isBlank_of_mem_numeral (h : readNumeral? base digits = some n) {c : Char} (hc : c ∈ digits) :
    isBlank c = false := by
  obtain ⟨hlow, hhigh⟩ := range_of_mem_numeral h hc
  exact isBlank_eq_false (by omega) (by omega)

lemma notMem_numeral {c : Char} (hc : c.toNat < 0x30)
    (h : readNumeral? base digits = some n) : c ∉ digits := by
  intro hmem
  exact absurd (range_of_mem_numeral h hmem).1 (Nat.not_le.mpr hc)

/-- A numeral is read as it stands where a sign may come first. -/
lemma readSigned?_of_readNumeral? (h : readNumeral? base digits = some n) :
    readSigned? base digits = some n := by
  have hplus : '+' ∉ digits := notMem_numeral (by decide) h
  unfold readSigned?
  split
  · exact absurd List.mem_cons_self hplus
  · exact h

lemma readFrom?_append (more : List Char) :
    readFrom? base value (digits ++ more)
      = (readFrom? base value digits).bind fun read => readFrom? base read more := by
  induction digits generalizing value with
  | nil => rfl
  | cons c rest ih =>
    rw [List.cons_append, readFrom?, readFrom?]
    cases digitIn? base c with
    | none => rfl
    | some digit => exact ih

end Digits

/-! ## Base sixteen -/

lemma digitIn?_toUpper {d : Nat} (h : d < 16) :
    digitIn? 16 (Nat.digitChar d).toUpper = some d := by
  have hall : ∀ d : Fin 16, digitIn? 16 (Nat.digitChar d.val).toUpper = some d.val := by decide
  exact hall ⟨d, h⟩

lemma readFrom?_upperHex (n : Nat) : readFrom? 16 0 (upperHex n) = some n := by
  -- the last digit is what is left over, and the digits before it are those of a smaller number
  induction n using Nat.strongRecOn with
  | _ n ih =>
    by_cases hsmall : n < 16
    · rw [upperHex, Nat.toDigits_of_lt_base hsmall, List.map_singleton, readFrom?,
        digitIn?_toUpper hsmall]
      simp [readFrom?]
    · have hlast : n % 16 < 16 := Nat.mod_lt n (by decide)
      have hrest := ih (n / 16) (by omega)
      rw [upperHex] at hrest
      rw [upperHex, Nat.toDigits_of_base_le (by decide) (by omega), List.map_append,
        readFrom?_append, hrest, Option.bind_some, List.map_singleton, readFrom?,
        digitIn?_toUpper hlast]
      simp only [readFrom?, Option.some.injEq]
      omega

lemma readNumeral?_upperHex (n : Nat) : readNumeral? 16 (upperHex n) = some n := by
  refine readNumeral?_eq_some.mpr ⟨?_, readFrom?_upperHex n⟩
  simp [upperHex, Nat.toDigits_ne_nil]

/-! ## Trimming -/

lemma trim_eq_self {text : List Char} (h : ∀ c ∈ text, isBlank c = false) : trim text = text := by
  have hdrop : ∀ text : List Char, (∀ c ∈ text, isBlank c = false) →
      text.dropWhile isBlank = text := by
    intro text htext
    cases text with
    | nil => rfl
    | cons c rest => rw [List.dropWhile_cons, htext c List.mem_cons_self, if_neg Bool.false_ne_true]
  rw [trim, hdrop text h, hdrop text.reverse fun c hc => h c (List.mem_reverse.mp hc),
    List.reverse_reverse]

end Text

namespace Lsn

open Text

/-- A position is made of its two halves. -/
lemma ofHalves_high_low (l : Lsn) : ofHalves l.high l.low = l := by
  have hlt := l.val.toNat_lt
  have hhigh : (l.high.toUInt64 <<< 32).toNat = 2 ^ 32 * (l.val.toNat / 2 ^ 32) := by
    simp [high, Nat.shiftRight_eq_div_pow, Nat.shiftLeft_eq]
    omega
  have hlow : l.low.toUInt64.toNat = l.val.toNat % 2 ^ 32 := by
    simp [low]
  have hhalves : (ofHalves l.high l.low).val.toNat = l.val.toNat := by
    have hlast : l.val.toNat % 2 ^ 32 < 2 ^ 32 := Nat.mod_lt _ (by decide)
    rw [ofHalves, UInt64.toNat_or, hhigh, hlow, ← Nat.two_pow_add_eq_or_of_lt hlast]
    exact Nat.div_add_mod l.val.toNat (2 ^ 32)
  cases l
  exact congrArg Lsn.mk (UInt64.toNat_inj.mp hhalves)

lemma readHalf?_upperHex (half : UInt32) : readHalf? (upperHex half.toNat) = some half := by
  have hlt : half.toNat < UInt32.size := half.toNat_lt
  simp [readHalf?, readSigned?_of_readNumeral? (readNumeral?_upperHex half.toNat), hlt]

/-- What is written without blanks is read as it stands. -/
lemma parse_ofList {text : List Char} {l : Lsn} (hblank : ∀ c ∈ text, isBlank c = false)
    (h : readBare? text = some l) : parse (String.ofList text) = .ok l := by
  simp [parse, read?, trim_eq_self hblank, h]

/-- The two halves of a position name it. -/
theorem parse_render (l : Lsn) : parse l.render = .ok l := by
  have hhigh := readNumeral?_upperHex l.high.toNat
  have hlow := readNumeral?_upperHex l.low.toNat
  have hcut : cut '/' (upperHex l.high.toNat ++ '/' :: upperHex l.low.toNat)
      = some (upperHex l.high.toNat, upperHex l.low.toNat) :=
    cut_append (notMem_numeral (by decide) hhigh) _
  refine parse_ofList ?_ ?_
  · intro c hc
    rcases List.mem_append.mp hc with hc | hc
    · exact isBlank_of_mem_numeral hhigh hc
    · rcases List.mem_cons.mp hc with rfl | hc
      · decide
      · exact isBlank_of_mem_numeral hlow hc
  · rw [readBare?, hcut]
    simp [readHalf?_upperHex, ofHalves_high_low]

/-- So does its number. -/
theorem parse_decimal (l : Lsn) : parse (String.ofList (decimal l.val.toNat)) = .ok l := by
  have hnumeral := readNumeral?_decimal l.val.toNat
  have hlt : l.val.toNat < UInt64.size := l.val.toNat_lt
  have hcut : cut '/' (decimal l.val.toNat) = none :=
    cut_eq_none_iff.mpr (notMem_numeral (by decide) hnumeral)
  refine parse_ofList ?_ ?_
  · exact fun c hc => isBlank_of_mem_numeral hnumeral hc
  · rw [readBare?, hcut]
    simp [readSigned?_of_readNumeral? hnumeral, hlt]

end Lsn

end ChangeTracking
