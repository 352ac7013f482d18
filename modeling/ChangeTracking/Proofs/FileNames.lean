import ChangeTracking.Proofs.Names

/-!
# The grammar of file names

The name of a segment file is a number, then perhaps an underscore and a fork, then perhaps a dot and
a number (`SegmentName`); that of a temporary relation's file has `t`, digits and an underscore in
front, and its own number may be of any size (`TemporaryName`).  What is read from a name is just
what the grammar says of it, and no name is of both kinds (`names_follow_grammar`).

The readers know nothing of the grammar.  They cut a name at its first dot, and what is before that
at its first underscore, and then test the parts.  It comes to the same because neither digits nor
suffixes have a dot or an underscore in them: where the grammar puts one, it is the first
(`splitName?_eq_some_iff`).
-/

namespace ChangeTracking.Layout

open Text

/-! ## The grammar -/

/-- One or more digits. -/
def IsDigits (text : List Char) : Prop := text ≠ [] ∧ ∀ c ∈ text, '0' ≤ c ∧ c ≤ '9'

/-- Digits that make the number of an object, with any number of zeros in front. -/
structure WritesOid (digits : List Char) (oid : Oid) : Prop where
  isDigits : IsDigits digits
  value : Nat.ofDigitChars 10 digits 0 = oid.toNat

/-- What may stand behind the number of a relation: nothing for the main fork, or an underscore and
the name of another. -/
inductive ForkPart : List Char → Fork → Prop
  | main : ForkPart [] .main
  | freeSpace : ForkPart ['_', 'f', 's', 'm'] .freeSpace
  | visibility : ForkPart ['_', 'v', 'm'] .visibility
  | init : ForkPart ['_', 'i', 'n', 'i', 't'] .init

/-- What may stand at the end: nothing for the first segment, or a dot and a number. -/
inductive SegmentPart : List Char → UInt32 → Prop
  | first : SegmentPart [] 0
  | numbered {digits : List Char} {segment : UInt32} (h : WritesOid digits segment) :
      SegmentPart ('.' :: digits) segment

/-- The names of segment files, with what they say. -/
inductive SegmentName : List Char → FileName → Prop
  | mk {digits forkPart segmentPart : List Char} {number : Oid} {fork : Fork} {segment : UInt32}
      (hnumber : WritesOid digits number) (hfork : ForkPart forkPart fork)
      (hsegment : SegmentPart segmentPart segment) :
      SegmentName (digits ++ forkPart ++ segmentPart) ⟨number, fork, segment⟩

/-- The names of temporary relations' files. -/
inductive TemporaryName : List Char → Prop
  | mk {owner digits forkPart segmentPart : List Char} {fork : Fork} {segment : UInt32}
      (howner : IsDigits owner) (hdigits : IsDigits digits) (hfork : ForkPart forkPart fork)
      (hsegment : SegmentPart segmentPart segment) :
      TemporaryName ('t' :: (owner ++ '_' :: (digits ++ forkPart ++ segmentPart)))

/-! ## The parts -/

lemma IsDigits.notMem {text : List Char} (h : IsDigits text) {c : Char}
    (hc : ¬('0' ≤ c ∧ c ≤ '9')) : c ∉ text :=
  fun hmem => hc (h.2 c hmem)

lemma ForkPart.notMem_dot {part : List Char} {fork : Fork} (h : ForkPart part fork) :
    '.' ∉ part := by
  cases h <;> decide

lemma allDigits_iff {text : List Char} : allDigits text = true ↔ IsDigits text := by
  simp [allDigits, IsDigits]

lemma readOid?_eq_some_iff {text : List Char} {oid : Oid} :
    readOid? text = some oid ↔ WritesOid text oid := by
  have hread : ∀ h : IsDigits text,
      readNumeral? 10 text = some (Nat.ofDigitChars 10 text 0) := by
    rintro ⟨hne, hdigits⟩
    rw [readNumeral?, if_neg (by simpa using hne)]
    exact readFrom?_of_isDigit (fun c hc => isDigit_iff.mpr (hdigits c hc)) 0
  constructor
  · intro h
    have hdigits := allDigits_iff.mp (allDigits_of_readOid? h)
    refine ⟨hdigits, ?_⟩
    rw [readOid?, hread hdigits, Option.bind_some] at h
    split at h
    · next hlt => rw [← Option.some.inj h, UInt32.toNat_ofNat_of_lt' hlt]
    · cases h
  · rintro ⟨hdigits, hvalue⟩
    rw [readOid?, hread hdigits, hvalue, Option.bind_some, if_pos oid.toNat_lt, UInt32.ofNat_toNat]

lemma ofFileSuffix?_eq_some_iff {suffix : List Char} {fork : Fork} :
    Fork.ofFileSuffix? (some (String.ofList suffix)) = some fork ↔ ForkPart ('_' :: suffix) fork := by
  constructor
  · intro h
    have hsuffix : ∀ text, String.ofList suffix = String.ofList text → suffix = text :=
      fun text => String.ofList_injective
    unfold Fork.ofFileSuffix? at h
    split at h
    · next hnone => cases hnone
    · next hfsm =>
      cases h
      rw [hsuffix ['f', 's', 'm'] (Option.some.inj hfsm)]
      exact .freeSpace
    · next hvm =>
      cases h
      rw [hsuffix ['v', 'm'] (Option.some.inj hvm)]
      exact .visibility
    · next hinit =>
      cases h
      rw [hsuffix ['i', 'n', 'i', 't'] (Option.some.inj hinit)]
      exact .init
    · cases h
  · intro h
    cases h <;> rfl

/-! ## Names taken apart -/

/-- The name without the segment's part, and the segment. -/
def cutSegment? (name : List Char) : Option (List Char × UInt32) :=
  match cut '.' name with
  | some (stem, digits) => (readOid? digits).map (stem, ·)
  | none => some (name, 0)

/-- What is left without the fork's part, and the fork. -/
def cutFork? (stem : List Char) : Option (List Char × Fork) :=
  match cut '_' stem with
  | some (body, suffix) => (Fork.ofFileSuffix? (some (String.ofList suffix))).map (body, ·)
  | none => some (stem, Fork.main)

lemma splitName?_eq (name : List Char) :
    splitName? name = (cutSegment? name).bind fun outer =>
      (cutFork? outer.1).map fun inner => (inner.1, inner.2, outer.2) := by
  have hfork : ∀ stem (segment : UInt32),
      (match cut '_' stem with
        | some (body, suffix) =>
          ((Fork.ofFileSuffix? (some (String.ofList suffix))).map (body, ·)).bind
            fun inner => some (inner.1, inner.2, segment)
        | none => some (stem, Fork.main, segment))
        = (cutFork? stem).map fun inner => (inner.1, inner.2, segment) := by
    intro stem segment
    unfold cutFork?
    rcases cut '_' stem with _ | ⟨body, suffix⟩
    · rfl
    · cases hsuffix : Fork.ofFileSuffix? (some (String.ofList suffix)) <;> simp [hsuffix]
  unfold splitName? cutSegment?
  rcases cut '.' name with _ | ⟨stem, digits⟩
  · exact hfork name 0
  · cases hdigits : readOid? digits with
    | none => simp [hdigits]
    | some segment =>
      simp only [hdigits, Option.map_some, Option.bind_some]
      exact hfork stem segment

lemma cutSegment?_eq_some_iff {name stem : List Char} {segment : UInt32} :
    cutSegment? name = some (stem, segment) ↔
      ∃ part, name = stem ++ part ∧ SegmentPart part segment ∧ '.' ∉ stem := by
  constructor
  · intro h
    unfold cutSegment? at h
    split at h
    · next stem' digits hcut =>
      obtain ⟨hname, hdot⟩ := cut_eq_some hcut
      obtain ⟨oid, hoid, heq⟩ := Option.map_eq_some_iff.mp h
      obtain ⟨rfl, rfl⟩ := Prod.mk.inj heq
      exact ⟨_, hname, .numbered (readOid?_eq_some_iff.mp hoid), hdot⟩
    · next hcut =>
      obtain ⟨rfl, rfl⟩ := Prod.mk.inj (Option.some.inj h)
      exact ⟨[], (List.append_nil _).symm, .first, cut_eq_none_iff.mp hcut⟩
  · rintro ⟨part, rfl, hpart, hdot⟩
    cases hpart with
    | first => rw [List.append_nil, cutSegment?, cut_eq_none_iff.mpr hdot]
    | numbered hdigits =>
      simp [cutSegment?, cut_append hdot, readOid?_eq_some_iff.mpr hdigits]

lemma cutFork?_eq_some_iff {stem body : List Char} {fork : Fork} :
    cutFork? stem = some (body, fork) ↔
      ∃ part, stem = body ++ part ∧ ForkPart part fork ∧ '_' ∉ body := by
  constructor
  · intro h
    unfold cutFork? at h
    split at h
    · next body' suffix hcut =>
      obtain ⟨hstem, hunderscore⟩ := cut_eq_some hcut
      obtain ⟨fork', hfork, heq⟩ := Option.map_eq_some_iff.mp h
      obtain ⟨rfl, rfl⟩ := Prod.mk.inj heq
      exact ⟨_, hstem, ofFileSuffix?_eq_some_iff.mp hfork, hunderscore⟩
    · next hcut =>
      obtain ⟨rfl, rfl⟩ := Prod.mk.inj (Option.some.inj h)
      exact ⟨[], (List.append_nil _).symm, .main, cut_eq_none_iff.mp hcut⟩
  · rintro ⟨part, rfl, hpart, hunderscore⟩
    have hsuffix : ∀ suffix, ForkPart ('_' :: suffix) fork →
        cutFork? (body ++ '_' :: suffix) = some (body, fork) := by
      intro suffix hpart
      simp [cutFork?, cut_append hunderscore, ofFileSuffix?_eq_some_iff.mpr hpart]
    cases hpart with
    | main => rw [List.append_nil, cutFork?, cut_eq_none_iff.mpr hunderscore]
    | freeSpace => exact hsuffix _ .freeSpace
    | visibility => exact hsuffix _ .visibility
    | init => exact hsuffix _ .init

/-- A name falls into parts where the grammar puts them, if the first dot and the first underscore
are the grammar's. -/
lemma splitName?_eq_some_iff {name body : List Char} {fork : Fork} {segment : UInt32} :
    splitName? name = some (body, fork, segment) ↔
      ∃ forkPart segmentPart, name = body ++ forkPart ++ segmentPart ∧ ForkPart forkPart fork ∧
        SegmentPart segmentPart segment ∧ '.' ∉ body ∧ '_' ∉ body := by
  rw [splitName?_eq]
  constructor
  · intro h
    obtain ⟨⟨stem, segment'⟩, hstem, h⟩ := Option.bind_eq_some_iff.mp h
    obtain ⟨⟨body', fork'⟩, hbody, heq⟩ := Option.map_eq_some_iff.mp h
    simp only [Prod.mk.injEq] at heq
    obtain ⟨rfl, rfl, rfl⟩ := heq
    obtain ⟨segmentPart, rfl, hsegment, hdot⟩ := cutSegment?_eq_some_iff.mp hstem
    obtain ⟨forkPart, rfl, hfork, hunderscore⟩ := cutFork?_eq_some_iff.mp hbody
    exact ⟨forkPart, segmentPart, rfl, hfork, hsegment,
      fun hmem => hdot (List.mem_append_left _ hmem), hunderscore⟩
  · rintro ⟨forkPart, segmentPart, rfl, hfork, hsegment, hdot, hunderscore⟩
    have hstem : cutSegment? (body ++ forkPart ++ segmentPart) = some (body ++ forkPart, segment) := by
      refine cutSegment?_eq_some_iff.mpr ⟨segmentPart, rfl, hsegment, ?_⟩
      rw [List.mem_append, not_or]
      exact ⟨hdot, hfork.notMem_dot⟩
    have hbody : cutFork? (body ++ forkPart) = some (body, fork) :=
      cutFork?_eq_some_iff.mpr ⟨forkPart, rfl, hfork, hunderscore⟩
    rw [hstem, Option.bind_some, hbody, Option.map_some]

lemma splitName?_of_isDigits {digits forkPart segmentPart : List Char} {fork : Fork}
    {segment : UInt32} (hdigits : IsDigits digits) (hfork : ForkPart forkPart fork)
    (hsegment : SegmentPart segmentPart segment) :
    splitName? (digits ++ forkPart ++ segmentPart) = some (digits, fork, segment) :=
  splitName?_eq_some_iff.mpr ⟨forkPart, segmentPart, rfl, hfork, hsegment,
    hdigits.notMem (by decide), hdigits.notMem (by decide)⟩

/-! ## What is read from names -/

lemma read?_eq_some_iff {name : String} {n : FileName} :
    FileName.read? name = some n ↔ SegmentName name.toList n := by
  constructor
  · intro h
    obtain ⟨⟨body, fork, segment⟩, hsplit, h⟩ := Option.bind_eq_some_iff.mp h
    obtain ⟨number, hnumber, h⟩ := Option.bind_eq_some_iff.mp h
    obtain rfl := Option.some.inj h
    obtain ⟨forkPart, segmentPart, hname, hfork, hsegment, -⟩ := splitName?_eq_some_iff.mp hsplit
    rw [hname]
    exact .mk (readOid?_eq_some_iff.mp hnumber) hfork hsegment
  · intro h
    obtain ⟨text, htext⟩ : ∃ text, text = name.toList := ⟨_, rfl⟩
    rw [← htext] at h
    cases h with
    | mk hnumber hfork hsegment =>
      rw [FileName.read?, ← htext, splitName?_of_isDigits hnumber.isDigits hfork hsegment]
      simp [readOid?_eq_some_iff.mpr hnumber]

lemma isTemporaryName_iff {name : String} :
    isTemporaryName name = true ↔ TemporaryName name.toList := by
  constructor
  · intro h
    unfold isTemporaryName at h
    split at h
    · next rest hname =>
      split at h
      · next owner relation hcut =>
        obtain ⟨howner, hrelation⟩ := Bool.and_eq_true_iff.mp h
        cases hsplit : splitName? relation with
        | none => simp [hsplit] at hrelation
        | some parts =>
          obtain ⟨digits, fork, segment⟩ := parts
          rw [hsplit] at hrelation
          obtain ⟨forkPart, segmentPart, rfl, hfork, hsegment, -⟩ :=
            splitName?_eq_some_iff.mp hsplit
          rw [hname, (cut_eq_some hcut).1]
          exact .mk (allDigits_iff.mp howner) (allDigits_iff.mp hrelation) hfork hsegment
      · cases h
    · cases h
  · intro h
    obtain ⟨text, htext⟩ : ∃ text, text = name.toList := ⟨_, rfl⟩
    rw [← htext] at h
    cases h with
    | mk howner hdigits hfork hsegment =>
      have hcut := cut_append (howner.notMem (c := '_') (by decide))
      simp only [isTemporaryName, ← htext, hcut, splitName?_of_isDigits hdigits hfork hsegment,
        allDigits_iff.mpr howner, Option.any_some, allDigits_iff.mpr hdigits, Bool.and_true]

lemma SegmentName.isTemporaryName {name : String} {n : FileName} (h : SegmentName name.toList n) :
    Layout.isTemporaryName name = false := by
  obtain ⟨text, htext⟩ : ∃ text, text = name.toList := ⟨_, rfl⟩
  rw [← htext] at h
  cases h with
  | mk hnumber hfork hsegment =>
    obtain ⟨hne, hdigits⟩ := hnumber.isDigits
    obtain ⟨c, rest, rfl⟩ := List.exists_cons_of_ne_nil hne
    exact isTemporaryName_of_digit htext.symm (isDigit_iff.mpr (hdigits c List.mem_cons_self))

/-- **Names of files follow their grammar.**  A name is read as that of a segment file if and only if
it is one by the grammar, and what is read is what it says; it is taken for that of a temporary
relation's file if and only if it is such a name by the grammar; and no name is both. -/
theorem names_follow_grammar (name : String) :
    (∀ n, FileName.read? name = some n ↔ SegmentName name.toList n) ∧
    (isTemporaryName name = true ↔ TemporaryName name.toList) ∧
    ¬((∃ n, FileName.read? name = some n) ∧ isTemporaryName name = true) := by
  refine ⟨fun n => read?_eq_some_iff, isTemporaryName_iff, ?_⟩
  rintro ⟨⟨n, hn⟩, htemporary⟩
  rw [(read?_eq_some_iff.mp hn).isTemporaryName] at htemporary
  cases htemporary

example : FileName.read? "0016384_vm.2" = some ⟨16384, .visibility, 2⟩ ∧
    FileName.read? "16384.2_vm" = none ∧ isTemporaryName "t3_16384_fsm" = true := by
  decide +kernel

end ChangeTracking.Layout
