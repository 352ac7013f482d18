import ChangeTracking.Layout.Segment
import ChangeTracking.Tree
import Mathlib.Tactic.Lemma

/-!
# Names of files and directories

What is written into a name can be read from it: the number of an object (`readOid?_oidText`) and
all parts of the name of a segment file (`FileName.read?_render`).  The name of a segment file
starts with a digit, so it is never taken for that of a temporary relation's file.

A segment file has at most `blocksPerSegment` blocks, and a fork has no more segments than there are
numbers for blocks.  So a block is found again in the segment it falls into
(`Segment.block_of_number`).
-/

namespace ChangeTracking

namespace Text

/-! ## Numerals -/

lemma isDigit_iff {c : Char} : c.isDigit = true ↔ '0' ≤ c ∧ c ≤ '9' := by
  simp [Char.isDigit, Char.le_def]

lemma digitIn?_of_isDigit {c : Char} (h : c.isDigit = true) :
    digitIn? 10 c = some (c.toNat - '0'.toNat) := by
  have hrange := isDigit_iff.mp h
  have hlt : c.toNat - '0'.toNat < 10 := by
    have hle : c.toNat ≤ '9'.toNat := hrange.2
    have hnine : '9'.toNat = '0'.toNat + 9 := rfl
    omega
  rw [digitIn?, digitValue?, if_pos hrange]
  exact Option.filter_eq_some_iff.mpr ⟨rfl, decide_eq_true hlt⟩

lemma isDigit_of_digitIn? {c : Char} {digit : Nat} (h : digitIn? 10 c = some digit) :
    '0' ≤ c ∧ c ≤ '9' := by
  obtain ⟨hvalue, hlt⟩ := Option.filter_eq_some_iff.mp h
  have hlt := of_decide_eq_true hlt
  unfold digitValue? at hvalue
  split at hvalue
  · assumption
  · split at hvalue
    · simp only [Option.some.injEq] at hvalue
      omega
    · split at hvalue
      · simp only [Option.some.injEq] at hvalue
        omega
      · simp at hvalue

lemma isDigit_of_readFrom? {value n : Nat} {digits : List Char}
    (h : readFrom? 10 value digits = some n) : ∀ c ∈ digits, '0' ≤ c ∧ c ≤ '9' := by
  induction digits generalizing value with
  | nil => simp
  | cons c rest ih =>
    rw [readFrom?] at h
    cases hdigit : digitIn? 10 c with
    | none => simp [hdigit] at h
    | some digit =>
      simp only [hdigit] at h
      intro d hd
      rcases List.mem_cons.mp hd with rfl | hd
      · exact isDigit_of_digitIn? hdigit
      · exact ih h d hd

lemma readFrom?_of_isDigit {digits : List Char} (h : ∀ c ∈ digits, c.isDigit = true) (value : Nat) :
    readFrom? 10 value digits = some (Nat.ofDigitChars 10 digits value) := by
  induction digits generalizing value with
  | nil => simp [readFrom?]
  | cons c rest ih =>
    have hrest := fun d hd => h d (List.mem_cons_of_mem c hd)
    rw [readFrom?, digitIn?_of_isDigit (h c List.mem_cons_self)]
    dsimp only
    rw [ih hrest, Nat.ofDigitChars_cons, Nat.mul_comm]

lemma isDigit_of_mem_decimal {n : Nat} {c : Char} (h : c ∈ decimal n) : c.isDigit = true :=
  Nat.isDigit_of_mem_toDigits (by decide) (by decide) h

lemma readNumeral?_decimal (n : Nat) : readNumeral? 10 (decimal n) = some n := by
  have hne : (decimal n).isEmpty = false := by simp [decimal, Nat.toDigits_ne_nil]
  rw [readNumeral?, hne, if_neg (by decide), readFrom?_of_isDigit fun c => isDigit_of_mem_decimal]
  exact congrArg some Nat.ofDigitChars_ten_toDigits

lemma notMem_decimal {c : Char} (h : c.isDigit = false) (n : Nat) : c ∉ decimal n := by
  intro hmem
  rw [isDigit_of_mem_decimal hmem] at h
  exact absurd h (by decide)

lemma exists_decimal_cons (n : Nat) : ∃ c rest, decimal n = c :: rest ∧ c.isDigit = true := by
  cases h : decimal n with
  | nil => exact absurd h Nat.toDigits_ne_nil
  | cons c rest => exact ⟨c, rest, rfl, isDigit_of_mem_decimal (n := n) (by rw [h]; simp)⟩

lemma cut_append {sep : Char} {before : List Char} (h : sep ∉ before) (after : List Char) :
    cut sep (before ++ sep :: after) = some (before, after) := by
  induction before with
  | nil => simp [cut]
  | cons c rest ih =>
    simp only [List.mem_cons, not_or] at h
    simp [cut, Ne.symm h.1, ih h.2]

end Text

namespace Layout

open Text

/-! ## Names of segment files -/

lemma readOid?_decimal (oid : Oid) : readOid? (decimal oid.toNat) = some oid := by
  have hlt : oid.toNat < 4294967296 := oid.toNat_lt
  simp [readOid?, readNumeral?_decimal, hlt]

lemma readOid?_oidText (oid : Oid) : readOid? (oidText oid).toList = some oid := by
  simp [oidText, readOid?_decimal]

/-- A number is written in digits only. -/
lemma allDigits_of_readOid? {text : List Char} {oid : Oid} (h : readOid? text = some oid) :
    allDigits text = true := by
  obtain ⟨n, hn, -⟩ := Option.bind_eq_some_iff.mp h
  unfold Text.readNumeral? at hn
  split at hn
  · simp at hn
  · next hne =>
    simp only [allDigits, hne, Bool.not_false, Bool.true_and, List.all_eq_true, decide_eq_true_eq]
    exact isDigit_of_readFrom? hn

lemma ofFileSuffix?_of_fileSuffix? {fork : Fork} {suffix : String}
    (h : fork.fileSuffix? = some suffix) :
    Fork.ofFileSuffix? (some suffix) = some fork := by
  cases fork <;> simp_all [Fork.fileSuffix?, Fork.ofFileSuffix?] <;> subst h <;> rfl

/-- The text between the number of the relation and the number of the segment. -/
def forkText (fork : Fork) : List Char :=
  match fork.fileSuffix? with
  | some suffix => '_' :: suffix.toList
  | none => []

lemma notMem_forkText {c : Char} (h : c = '.' ∨ c = '/') (fork : Fork) : c ∉ forkText fork := by
  rcases h with rfl | rfl <;> cases fork <;> decide

lemma cut_fork_eq_none {fork : Fork} (h : fork.fileSuffix? = none) (number : Nat) :
    cut '_' (decimal number ++ forkText fork) = none := by
  rw [cut_eq_none_iff, forkText, h, List.append_nil]
  exact notMem_decimal (by decide) number

lemma cut_fork_eq_some {fork : Fork} {suffix : String} (h : fork.fileSuffix? = some suffix)
    (number : Nat) :
    cut '_' (decimal number ++ forkText fork) = some (decimal number, suffix.toList) := by
  rw [forkText, h]
  exact cut_append (notMem_decimal (by decide) number) _

lemma toList_render (n : FileName) :
    n.render.toList = decimal n.number.toNat ++ forkText n.fork ++
      if n.segment = 0 then [] else '.' :: decimal n.segment.toNat := by
  unfold FileName.render forkText
  cases n.fork.fileSuffix? with
  | none => exact String.toList_ofList
  | some suffix => exact String.toList_ofList

lemma splitName?_render (n : FileName) :
    splitName? n.render.toList = some (decimal n.number.toNat, n.fork, n.segment) := by
  have hstem : '.' ∉ decimal n.number.toNat ++ forkText n.fork := by
    rw [List.mem_append, not_or]
    exact ⟨notMem_decimal (by decide) _, notMem_forkText (.inl rfl) _⟩
  have hwhole := cut_eq_none_iff.mpr hstem
  cases hsuffix : n.fork.fileSuffix? with
  | none =>
    have hmain : n.fork = Fork.main := by
      cases hfork : n.fork <;> simp_all [Fork.fileSuffix?]
    have hnothing : forkText Fork.main = [] := rfl
    have hbody := cut_fork_eq_none hsuffix n.number.toNat
    rw [hmain, hnothing, List.append_nil] at hbody
    by_cases hsegment : n.segment = 0
    · rw [toList_render, if_pos hsegment, List.append_nil, splitName?, hwhole]
      simp [hbody, hmain, hsegment, hnothing]
    · rw [toList_render, if_neg hsegment, splitName?, cut_append hstem]
      simp [readOid?_decimal, hbody, hmain, hnothing]
  | some suffix =>
    have hbody := cut_fork_eq_some hsuffix n.number.toNat
    have hfork := ofFileSuffix?_of_fileSuffix? hsuffix
    by_cases hsegment : n.segment = 0
    · rw [toList_render, if_pos hsegment, List.append_nil, splitName?, hwhole]
      simp [hbody, hfork, hsegment]
    · rw [toList_render, if_neg hsegment, splitName?, cut_append hstem]
      simp [readOid?_decimal, hbody, hfork]

/-- The name of a segment file says all that it was made from. -/
theorem read?_render (n : FileName) : FileName.read? n.render = some n := by
  simp only [FileName.read?, splitName?_render, readOid?_decimal, Option.bind_eq_bind,
    Option.bind_some]
  rfl

lemma isTemporaryName_of_digit {name : String} {c : Char} {rest : List Char}
    (h : name.toList = c :: rest) (hc : c.isDigit = true) : isTemporaryName name = false := by
  have hne : c ≠ 't' := by
    rintro rfl
    exact absurd hc (by decide)
  unfold isTemporaryName
  rw [h]
  split
  · next heq => exact absurd (List.cons.inj heq).1 hne
  · rfl

lemma validName_of_digit {name : String} {c : Char} {rest : List Char}
    (h : name.toList = c :: rest) (hc : c.isDigit = true) (hslash : '/' ∉ name.toList) :
    ValidName name := by
  refine ⟨?_, ?_, ?_, hslash⟩
  · rintro rfl
    simp at h
  · rintro rfl
    obtain rfl : '.' = c := (List.cons.inj h).1
    exact absurd hc (by decide)
  · rintro rfl
    obtain rfl : '.' = c := (List.cons.inj h).1
    exact absurd hc (by decide)

lemma exists_oidText_cons (oid : Oid) :
    ∃ c rest, (oidText oid).toList = c :: rest ∧ c.isDigit = true := by
  simpa [oidText] using exists_decimal_cons oid.toNat

lemma isTemporaryName_oidText (oid : Oid) : isTemporaryName (oidText oid) = false := by
  obtain ⟨c, rest, h, hc⟩ := exists_oidText_cons oid
  exact isTemporaryName_of_digit h hc

lemma validName_oidText (oid : Oid) : ValidName (oidText oid) := by
  obtain ⟨c, rest, h, hc⟩ := exists_oidText_cons oid
  refine validName_of_digit h hc ?_
  simpa [oidText] using notMem_decimal (c := '/') (by decide) oid.toNat

lemma exists_render_cons (n : FileName) :
    ∃ c rest, n.render.toList = c :: rest ∧ c.isDigit = true := by
  obtain ⟨c, rest, h, hc⟩ := exists_decimal_cons n.number.toNat
  rw [toList_render, h]
  exact ⟨c, _, rfl, hc⟩

lemma isTemporaryName_render (n : FileName) : isTemporaryName n.render = false := by
  obtain ⟨c, rest, h, hc⟩ := exists_render_cons n
  exact isTemporaryName_of_digit h hc

lemma validName_render (n : FileName) : ValidName n.render := by
  obtain ⟨c, rest, h, hc⟩ := exists_render_cons n
  refine validName_of_digit h hc ?_
  rw [toList_render]
  have hdecimal := fun k => notMem_decimal (c := '/') (by decide) k
  split <;> simp [hdecimal, notMem_forkText (.inr rfl)]

lemma validName_of_mem_relationDirectory {version : String} (hversion : ValidName version)
    (r : Relation) :
    ∀ name ∈ relationDirectory r version, ValidName name := by
  have hglobal : ValidName "global" := by decide
  have hbase : ValidName "base" := by decide
  have htblspc : ValidName "pg_tblspc" := by decide
  have hoid := validName_oidText
  unfold relationDirectory
  split
  · simp [hglobal]
  · split
    · simp [hbase, hoid]
    · simp [htblspc, hoid, hversion]

end Layout

namespace Segment

/-! ## Blocks of segments -/

/-- A block is found again at its offset in the segment that its number falls into. -/
lemma block_of_number {s : Segment} {b : Block} (hrelation : s.relation = b.relation)
    (hfork : s.fork = b.fork) (hindex : s.index.toNat = b.number.toNat / blocksPerSegment) :
    s.block (b.number.toNat % blocksPerSegment) = b := by
  have hdiv : b.number.toNat / blocksPerSegment * blocksPerSegment
      + b.number.toNat % blocksPerSegment = b.number.toNat := Nat.div_add_mod' _ _
  have hlast : b.number.toNat ≤ lastBlock := Nat.le_pred_of_lt b.number.toNat_lt
  have hbase : b.number.toNat / blocksPerSegment * blocksPerSegment ≤ lastBlock :=
    Nat.le_trans (Nat.div_mul_le_self _ _) hlast
  have hnumber : s.blockNumber (b.number.toNat % blocksPerSegment) = b.number := by
    rw [blockNumber, baseBlock, hindex, Nat.min_eq_left hbase, hdiv,
      Nat.min_eq_left hlast, UInt32.ofNat_toNat]
  rw [block, hrelation, hfork, hnumber]

end Segment

end ChangeTracking
