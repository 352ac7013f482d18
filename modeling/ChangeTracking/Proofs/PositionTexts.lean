import ChangeTracking.Block.Document
import ChangeTracking.Proofs.Documents
import ChangeTracking.Proofs.Numerals
import Mathlib.Data.List.TakeWhile

/-!
# The texts that name a position

`LsnText` shows that a position is read back from both of its written forms.  Here is the other
direction: which texts are read at all, and what they are read as.  `Lsn.NamesPosition` says it as
a grammar, in which numerals have values (`Text.Numeral`) and no reader occurs, and `Text.TrimsTo`
says in the same way what is left of a text without the blanks around it, which is what trimming gives
(`Text.trimsTo_trim`) and nothing else (`Text.TrimsTo.trim_eq`).  What is read is just what the grammar
says (`Lsn.texts_name_positions`), and all other texts end in an error that shows them trimmed.

The reader cuts at the first slash, while the grammar only wants one between the halves.  That is
the same since there is no slash in a numeral: a second one makes a half that is none.
-/

namespace ChangeTracking

namespace Text

/-! ## Blanks around a text -/

/-- All characters are blank. -/
def Blank (text : List Char) : Prop := ∀ c ∈ text, isBlank c = true

instance (text : List Char) : Decidable (Blank text) :=
  inferInstanceAs (Decidable (∀ c ∈ text, isBlank c = true))

/-- The inner text is the text without the blanks at its two ends. -/
structure TrimsTo (text inner : List Char) : Prop where
  around : ∃ before after, text = before ++ inner ++ after ∧ Blank before ∧ Blank after
  head : ∀ c ∈ inner.head?, isBlank c = false
  last : ∀ c ∈ inner.getLast?, isBlank c = false

section Trimming

variable {text inner before after : List Char}

lemma dropWhile_isBlank_append (hbefore : Blank before)
    (hhead : ∀ c ∈ text.head?, isBlank c = false) :
    (before ++ text).dropWhile isBlank = text := by
  rw [List.dropWhile_append_of_pos hbefore]
  cases text with
  | nil => rfl
  | cons c rest => rw [List.dropWhile_cons, hhead c rfl, if_neg Bool.false_ne_true]

lemma isBlank_head?_dropWhile (text : List Char) :
    ∀ c ∈ (text.dropWhile isBlank).head?, isBlank c = false := by
  intro c hc
  have hhead := List.head?_dropWhile_not isBlank text
  rwa [Option.mem_def.mp hc] at hhead

lemma TrimsTo.trim_eq (h : TrimsTo text inner) : trim text = inner := by
  obtain ⟨⟨before, after, rfl, hbefore, hafter⟩, hhead, hlast⟩ := h
  cases inner with
  | nil =>
    have hall : (before ++ [] ++ after).dropWhile isBlank = [] := by
      rw [List.append_nil, List.dropWhile_eq_nil_iff]
      exact fun c hc => (List.mem_append.mp hc).elim (hbefore c) (hafter c)
    rw [trim, hall]
    rfl
  | cons c rest =>
    have hfront : (before ++ (c :: rest) ++ after).dropWhile isBlank = (c :: rest) ++ after := by
      rw [List.append_assoc]
      exact dropWhile_isBlank_append hbefore hhead
    have hback : (after.reverse ++ (c :: rest).reverse).dropWhile isBlank
        = (c :: rest).reverse := by
      refine dropWhile_isBlank_append (fun d hd => hafter d (List.mem_reverse.mp hd)) ?_
      rwa [List.head?_reverse]
    rw [trim, hfront, List.reverse_append, hback, List.reverse_reverse]

lemma trimsTo_trim (text : List Char) : TrimsTo text (trim text) := by
  obtain ⟨after, hafter, hrest⟩ : ∃ after, Blank after ∧
      text.dropWhile isBlank = trim text ++ after := by
    refine ⟨((text.dropWhile isBlank).reverse.takeWhile isBlank).reverse, fun c hc => ?_, ?_⟩
    · exact List.mem_takeWhile_imp (List.mem_reverse.mp hc)
    · rw [trim, ← List.reverse_append, List.takeWhile_append_dropWhile, List.reverse_reverse]
  refine ⟨⟨text.takeWhile isBlank, after, ?_, fun c hc => List.mem_takeWhile_imp hc, hafter⟩,
    fun c hc => ?_, fun c hc => ?_⟩
  · rw [List.append_assoc, ← hrest, List.takeWhile_append_dropWhile]
  · refine isBlank_head?_dropWhile text c ?_
    rw [hrest]
    exact List.mem_head?_append_of_mem_head? hc
  · rw [trim, List.getLast?_reverse] at hc
    exact isBlank_head?_dropWhile _ c hc

/-- More blanks around a text make no difference. -/
lemma trim_around (hbefore : Blank before) (hafter : Blank after) (text : List Char) :
    trim (before ++ text ++ after) = trim text := by
  obtain ⟨⟨front, back, htext, hfront, hback⟩, hhead, hlast⟩ := trimsTo_trim text
  refine TrimsTo.trim_eq ⟨⟨before ++ front, back ++ after, ?_, ?_, ?_⟩, hhead, hlast⟩
  · conv_lhs => rw [htext]
    simp only [List.append_assoc]
  · exact fun c hc => (List.mem_append.mp hc).elim (hbefore c) (hfront c)
  · exact fun c hc => (List.mem_append.mp hc).elim (hback c) (hafter c)

end Trimming

end Text

/-! ## Positions -/

namespace Lsn

open Text

/-- The texts without blanks around them that name a position: its two halves in base sixteen, with
a slash between them, or its number in base ten. -/
inductive NamesPosition : List Char → Lsn → Prop
  | halves {high low : List Char} {h l : Nat} {position : Lsn} (hhigh : Signed 16 high h)
      (hlow : Signed 16 low l) (hh : h < 2 ^ 32) (hl : l < 2 ^ 32)
      (hvalue : position.val.toNat = h * 2 ^ 32 + l) :
      NamesPosition (high ++ '/' :: low) position
  | whole {digits : List Char} {position : Lsn} (h : Signed 10 digits position.val.toNat) :
      NamesPosition digits position

lemma toNat_ofHalves (high low : UInt32) :
    (ofHalves high low).val.toNat = high.toNat * 2 ^ 32 + low.toNat := by
  have hhigh : (high.toUInt64 <<< 32).toNat = 2 ^ 32 * high.toNat := by
    have hlt := high.toNat_lt
    simp [Nat.shiftLeft_eq]
    omega
  have hlow : low.toUInt64.toNat = low.toNat := by simp
  rw [ofHalves, UInt64.toNat_or, hhigh, hlow, ← Nat.two_pow_add_eq_or_of_lt low.toNat_lt,
    Nat.mul_comm]

lemma readHalf?_eq_some_iff {text : List Char} {half : UInt32} :
    readHalf? text = some half ↔ Signed 16 text half.toNat := by
  rw [← readSigned?_eq_some_iff, readHalf?, Option.bind_eq_some_iff]
  constructor
  · rintro ⟨n, hread, hfits⟩
    split at hfits
    · next hlt =>
      rw [hread, ← Option.some.inj hfits, UInt32.toNat_ofNat_of_lt' hlt]
    · cases hfits
  · intro hread
    exact ⟨half.toNat, hread, by rw [if_pos half.toNat_lt, UInt32.ofNat_toNat]⟩

lemma slash_notMem_of_signed {base n : Nat} {text : List Char} (h : Signed base text n) :
    '/' ∉ text := by
  cases h with
  | bare h => exact notMem_numeral (by decide) (readNumeral?_eq_some_iff.mpr h)
  | plus h =>
    have hdigits := notMem_numeral (c := '/') (by decide) (readNumeral?_eq_some_iff.mpr h)
    simp [hdigits]

lemma eq_of_toNat_val {a b : Lsn} (h : a.val.toNat = b.val.toNat) : a = b := by
  cases a
  cases b
  exact congrArg Lsn.mk (UInt64.toNat_inj.mp h)

theorem readBare?_eq_some_iff {text : List Char} {position : Lsn} :
    readBare? text = some position ↔ NamesPosition text position := by
  constructor
  · intro h
    unfold readBare? at h
    split at h
    · next high low hcut =>
      obtain ⟨rfl, -⟩ := cut_eq_some hcut
      obtain ⟨upper, hupper, h⟩ := Option.bind_eq_some_iff.mp h
      obtain ⟨lower, hlower, h⟩ := Option.bind_eq_some_iff.mp h
      obtain rfl := Option.some.inj h
      exact .halves (readHalf?_eq_some_iff.mp hupper) (readHalf?_eq_some_iff.mp hlower)
        upper.toNat_lt lower.toNat_lt (toNat_ofHalves upper lower)
    · obtain ⟨n, hread, hfits⟩ := Option.bind_eq_some_iff.mp h
      split at hfits
      · next hlt =>
        obtain rfl := Option.some.inj hfits
        refine .whole ?_
        rw [UInt64.toNat_ofNat_of_lt' hlt]
        exact readSigned?_eq_some_iff.mp hread
      · cases hfits
  · intro h
    cases h with
    | @halves high low h l _ hhigh hlow hh hl hvalue =>
      have hupper : readHalf? high = some (UInt32.ofNat h) := by
        rwa [readHalf?_eq_some_iff, UInt32.toNat_ofNat_of_lt' hh]
      have hlower : readHalf? low = some (UInt32.ofNat l) := by
        rwa [readHalf?_eq_some_iff, UInt32.toNat_ofNat_of_lt' hl]
      have hposition : ofHalves (UInt32.ofNat h) (UInt32.ofNat l) = position := by
        refine eq_of_toNat_val ?_
        rw [toNat_ofHalves, UInt32.toNat_ofNat_of_lt' hh, UInt32.toNat_ofNat_of_lt' hl, hvalue]
      rw [readBare?, cut_append (slash_notMem_of_signed hhigh)]
      simp [hupper, hlower, hposition]
    | whole h =>
      rw [readBare?, cut_eq_none_iff.mpr (slash_notMem_of_signed h)]
      simp only [readSigned?_eq_some_iff.mpr h, Option.bind_some, UInt64.ofNat_toNat]
      exact if_pos position.val.toNat_lt

/-- A text is read as a position exactly if it names the position without the blanks around it. -/
lemma parse_eq_ok_iff {text : String} {l : Lsn} :
    parse text = .ok l ↔ NamesPosition (trim text.toList) l := by
  rw [← readBare?_eq_some_iff, parse, read?]
  cases readBare? (trim text.toList) with
  | none => simp
  | some position => simp

lemma parse_eq_error_iff {text : String} :
    parse text = .error (.invalidLsn (String.ofList (trim text.toList))) ↔
      ∀ l, ¬NamesPosition (trim text.toList) l := by
  simp only [← readBare?_eq_some_iff, parse, read?]
  cases readBare? (trim text.toList) with
  | none => simp
  | some position => simp

/-! ## The written form -/

/-- Digits in base sixteen as they are written: letters are capital, and no zero is in front. -/
structure WrittenHalf (digits : List Char) (n : Nat) : Prop where
  numeral : Numeral 16 digits n
  capital : ∀ c ∈ digits, c ∈ capitalDigits
  unpadded : digits.head? = some '0' → digits = ['0']

lemma capital_digitChar {d : Nat} (hd : d < 16) : (Nat.digitChar d).toUpper ∈ capitalDigits := by
  have hall : ∀ d : Fin 16, (Nat.digitChar d.val).toUpper ∈ capitalDigits := by decide
  exact hall ⟨d, hd⟩

lemma writtenHalf_upperHex (n : Nat) : WrittenHalf (upperHex n) n := by
  -- the digits in front of the last one are those of a smaller number, which is not zero
  induction n using Nat.strongRecOn with
  | _ n ih =>
    have hnumeral := readNumeral?_eq_some_iff.mp (readNumeral?_upperHex n)
    by_cases hsmall : n < 16
    · have hone : upperHex n = [(Nat.digitChar n).toUpper] := by
        rw [upperHex, Nat.toDigits_of_lt_base hsmall, List.map_singleton]
      refine ⟨hnumeral, fun c hc => ?_, fun hhead => ?_⟩
      · rw [hone, List.mem_singleton] at hc
        rw [hc]
        exact capital_digitChar hsmall
      · rw [hone, List.head?_singleton, Option.some.injEq] at hhead
        rw [hone, hhead]
    · obtain ⟨hfront, hcapital, hunpadded⟩ := ih (n / 16) (by omega)
      have hmore : upperHex n = upperHex (n / 16) ++ [(Nat.digitChar (n % 16)).toUpper] := by
        rw [upperHex, Nat.toDigits_of_base_le (by omega) (by omega), List.map_append,
          List.map_singleton]
        rfl
      have hne : upperHex (n / 16) ≠ [] :=
        (readNumeral?_eq_some.mp (readNumeral?_upperHex (n / 16))).1
      refine ⟨hnumeral, fun c hc => ?_, fun hhead => ?_⟩
      · rw [hmore, List.mem_append, List.mem_singleton] at hc
        rcases hc with hc | rfl
        · exact hcapital c hc
        · exact capital_digitChar (Nat.mod_lt n (by omega))
      · rw [hmore, List.head?_append_of_ne_nil _ hne] at hhead
        have hzero := readNumeral?_upperHex (n / 16)
        rw [hunpadded hhead] at hzero
        have hnone : 0 = n / 16 := Option.some.inj hzero
        omega

lemma parse_around {before after : List Char} (hbefore : Blank before) (hafter : Blank after)
    (text : String) :
    parse (String.ofList (before ++ text.toList ++ after)) = parse text := by
  simp only [parse, read?, String.toList_ofList, trim_around hbefore hafter]

lemma ofJson?_toJson (l : Lsn) : ofJson? l.toJson = some l := by
  have hread : read? l.render = some l := by
    have hparse := parse_eq_ok_iff.mp (parse_render l)
    exact readBare?_eq_some_iff.mpr hparse
  rw [ofJson?, toJson, Json.text?, Option.bind_some, hread]

lemma toNat_high (l : Lsn) : l.high.toNat = l.val.toNat / 2 ^ 32 := by
  have hlt := l.val.toNat_lt
  simp [high, Nat.shiftRight_eq_div_pow]
  omega

lemma toNat_low (l : Lsn) : l.low.toNat = l.val.toNat % 2 ^ 32 := by
  simp [low]

/-- **The texts that name a position.**  A position is named by its two halves, written in base
sixteen with capital letters and no zeros in front, by its number, and by its form in a document;
blanks around make no difference.  Whatever the text, it is read as a position exactly if it names
that position when the blanks around it are left out, and if it names none the error shows what is
left of it. -/
theorem texts_name_positions :
    (∀ (l : Lsn) (before after : List Char), Blank before → Blank after →
      parse (String.ofList (before ++ l.render.toList ++ after)) = .ok l ∧
      parse (String.ofList (before ++ decimal l.val.toNat ++ after)) = .ok l) ∧
    (∀ l : Lsn, (Json.parse? (Text.symbols l.toJson.compact)).bind ofJson? = some l) ∧
    (∀ l : Lsn, ∃ high low, l.render.toList = high ++ '/' :: low ∧
      WrittenHalf high (l.val.toNat / 2 ^ 32) ∧ WrittenHalf low (l.val.toNat % 2 ^ 32)) ∧
    ∀ text : String, ∃ inner, TrimsTo text.toList inner ∧
      (∀ l, parse text = .ok l ↔ NamesPosition inner l) ∧
      (parse text = .error (.invalidLsn (String.ofList inner)) ↔ ∀ l, ¬NamesPosition inner l) := by
  refine ⟨fun l before after hbefore hafter => ⟨?_, ?_⟩, fun l => ?_, fun l => ?_, fun text => ?_⟩
  · rw [parse_around hbefore hafter, parse_render]
  · have hdecimal := parse_around hbefore hafter (String.ofList (decimal l.val.toNat))
    rwa [String.toList_ofList, parse_decimal] at hdecimal
  · have hplain : Json.Plain l.toJson := .text l.render
    rw [Json.parse?_compact hplain, Option.bind_some, ofJson?_toJson]
  · refine ⟨_, _, ?_, writtenHalf_upperHex _, writtenHalf_upperHex _⟩
    rw [render, String.toList_ofList, toNat_high, toNat_low]
  · exact ⟨trim text.toList, trimsTo_trim _, fun l => parse_eq_ok_iff, parse_eq_error_iff⟩

theorem texts_name_positions_between_blanks :
    Blank [' ', '\t'] ∧ Blank ['\n'] ∧ parse " \t16/B374D848\n" = .ok ⟨0x16B374D848⟩ ∧
      parse " \t97500059720\n" = .ok ⟨0x16B374D848⟩ := by
  have hbefore : Blank [' ', '\t'] := by simp [Blank, isBlank, blankRanges]
  have hafter : Blank ['\n'] := by simp [Blank, isBlank, blankRanges]
  obtain ⟨hhalves, hnumber⟩ := texts_name_positions.1 ⟨0x16B374D848⟩ _ _ hbefore hafter
  exact ⟨hbefore, hafter, hhalves, hnumber⟩

end Lsn

end ChangeTracking
