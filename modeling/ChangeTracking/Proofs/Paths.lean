import ChangeTracking.Tree.Lookup
import Mathlib.Data.List.DropRight
import Mathlib.Tactic.Lemma

/-!
# Texts of paths

A path that was joined from two texts asks for the steps of the one and then for those of the other
(`Path.plainSteps_join`), and it does not matter how a longer path is put together
(`Path.join_join`).  Where it leads on from the first one is said by the second, without the slashes
and dots that are around that (`Path.relativeTo?_join`).
-/

namespace ChangeTracking

namespace Text

lemma pieces_ne_nil (sep : Char) (text : List Char) : pieces sep text ≠ [] := by
  cases text with
  | nil => simp [pieces]
  | cons c rest =>
    rw [pieces]
    split
    · simp
    · split <;> simp

/-- A text with a separator in it falls apart there. -/
lemma pieces_append (sep : Char) (before after : List Char) :
    pieces sep (before ++ sep :: after) = pieces sep before ++ pieces sep after := by
  induction before with
  | nil => simp [pieces]
  | cons c rest ih =>
    by_cases hc : c = sep
    · simp [pieces, hc, ih]
    · simp only [List.cons_append, pieces, if_neg hc, ih]
      cases hrest : pieces sep rest with
      | nil => exact absurd hrest (pieces_ne_nil sep rest)
      | cons piece others => rfl

lemma pieces_of_notMem {sep : Char} {text : List Char} (h : sep ∉ text) :
    pieces sep text = [text] := by
  induction text with
  | nil => rfl
  | cons c rest ih =>
    simp only [List.mem_cons, not_or] at h
    simp [pieces, Ne.symm h.1, ih h.2]

lemma notMem_of_mem_pieces {sep : Char} {text piece : List Char} (h : piece ∈ pieces sep text) :
    sep ∉ piece := by
  induction text generalizing piece with
  | nil =>
    rw [pieces, List.mem_singleton] at h
    simp [h]
  | cons c rest ih =>
    rw [pieces] at h
    split at h
    · rcases List.mem_cons.mp h with rfl | h
      · simp
      · exact ih h
    · next hc =>
      split at h
      · next hnil => exact absurd hnil (pieces_ne_nil sep rest)
      · next first others heq =>
        rcases List.mem_cons.mp h with rfl | h
        · rw [List.mem_cons, not_or]
          exact ⟨Ne.symm hc, ih (heq ▸ List.mem_cons_self)⟩
        · exact ih (heq ▸ List.mem_cons_of_mem first h)

end Text

namespace Path

open Text

lemma notMem_of_mem_segments {p : Path} {segment : String} (h : segment ∈ p.segments) :
    '/' ∉ segment.toList := by
  obtain ⟨piece, hpiece, rfl⟩ := List.mem_map.mp h
  rw [String.toList_ofList]
  exact notMem_of_mem_pieces hpiece

lemma isAbsolute_of_notMem {text : String} (h : '/' ∉ text.toList) :
    (Path.mk text).isAbsolute = false := by
  cases hlist : text.toList with
  | nil => simp [Path.isAbsolute, hlist]
  | cons c rest =>
    rw [hlist, List.mem_cons, not_or] at h
    simp [Path.isAbsolute, hlist, Ne.symm h.1]

section Join

variable {p : Path} {further : String}

/-- What stands in front of what is joined to a path. -/
def lead (p : Path) : String := if p.slashEnded then p.text else p.text ++ "/"

lemma exists_lead (hp : p.text ≠ "") :
    ∃ front, p.lead.toList = front ++ ['/'] ∧
      (p.text.toList = front ∧ p.slashEnded = false ∨
        p.text.toList = front ++ ['/'] ∧ p.slashEnded = true) := by
  have hne : p.text.toList ≠ [] := by simpa using hp
  by_cases hslash : p.slashEnded = true
  · have hlast : p.text.toList.getLast? = some '/' := by simpa [slashEnded] using hslash
    have hsplit := List.dropLast_append_getLast? '/' hlast
    refine ⟨p.text.toList.dropLast, ?_, .inr ⟨hsplit.symm, hslash⟩⟩
    rw [lead, if_pos hslash, hsplit]
  · exact ⟨p.text.toList, by simp [lead, hslash], .inl ⟨rfl, by simpa using hslash⟩⟩

lemma join_eq (hp : p.text ≠ "") (hfurther : (Path.mk further).isAbsolute = false) :
    p.join further = ⟨p.lead ++ further⟩ := by
  have hne : p.text.toList ≠ [] := by simpa using hp
  have hlast : p.text.toList.getLast?.any (· ≠ '/') = !p.slashEnded := by
    rw [slashEnded, List.getLast?_eq_some_getLast hne]
    by_cases hc : p.text.toList.getLast hne = '/' <;> simp [hc]
  rw [join, hfurther, hlast]
  cases hslash : p.slashEnded <;> simp [lead, hslash]

lemma text_join_ne_of_further (h : further ≠ "") : (p.join further).text ≠ "" := by
  unfold join
  split
  · exact h
  · split <;> simp [h]

lemma text_join_ne (hp : p.text ≠ "") (hfurther : (Path.mk further).isAbsolute = false) :
    (p.join further).text ≠ "" := by
  obtain ⟨front, hlead, -⟩ := exists_lead hp
  rw [join_eq hp hfurther, Ne, ← String.toList_eq_nil_iff]
  simp [hlead]

lemma isAbsolute_join (hp : p.text ≠ "") (hfurther : (Path.mk further).isAbsolute = false) :
    (p.join further).isAbsolute = p.isAbsolute := by
  obtain ⟨front, hlead, htext⟩ := exists_lead hp
  have hne : p.text.toList ≠ [] := by simpa using hp
  rw [join_eq hp hfurther, isAbsolute, isAbsolute, String.toList_append, hlead]
  rcases htext with ⟨htext, -⟩ | ⟨htext, -⟩
  · rw [htext] at hne ⊢
    cases front with
    | nil => exact absurd rfl hne
    | cons c rest => rfl
  · rw [htext]
    cases front <;> rfl

lemma slashEnded_join (hp : p.text ≠ "") (hfurther : (Path.mk further).isAbsolute = false)
    (hne : further ≠ "") : (p.join further).slashEnded = (Path.mk further).slashEnded := by
  have hlist : further.toList ≠ [] := by simpa using hne
  rw [join_eq hp hfurther, slashEnded, slashEnded, String.toList_append,
    List.getLast?_append_of_ne_nil _ hlist]

/-- The texts between the slashes of a path that leads on.  A slash that the first part ends with
does not count. -/
lemma exists_segments_join (hp : p.text ≠ "") (hfurther : (Path.mk further).isAbsolute = false) :
    ∃ front, front ≠ [] ∧ (p.join further).segments = front ++ (Path.mk further).segments ∧
      (p.segments = front ∨ p.segments = front ++ [""]) := by
  obtain ⟨front, hlead, htext⟩ := exists_lead hp
  refine ⟨(pieces '/' front).map String.ofList, ?_, ?_, ?_⟩
  · simpa using pieces_ne_nil '/' front
  · rw [join_eq hp hfurther, segments, segments, String.toList_append, hlead, List.append_assoc,
      List.singleton_append, pieces_append, List.map_append]
  · rcases htext with ⟨htext, -⟩ | ⟨htext, -⟩
    · left
      rw [segments, htext]
    · right
      rw [segments, htext, pieces_append, List.map_append]
      rfl

/-- A path that leads on asks for the steps of both parts. -/
lemma plainSteps_join (hp : p.text ≠ "") (hfurther : (Path.mk further).isAbsolute = false) :
    (p.join further).plainSteps = p.plainSteps ++ (Path.mk further).plainSteps := by
  obtain ⟨front, -, hjoined, hp' | hp'⟩ := exists_segments_join hp hfurther
  · simp only [plainSteps, hjoined, hp', List.filterMap_append]
  · simp [plainSteps, hjoined, hp', List.filterMap_append, Step.ofSegment?]

/-- A path that leads on has the components of both parts. -/
lemma components_join (hp : p.text ≠ "") (hfurther : (Path.mk further).isAbsolute = false) :
    (p.join further).components
      = p.components ++ (Path.mk further).segments.filterMap Component.ofSegment? := by
  obtain ⟨front, hfront, hjoined, hp'⟩ := exists_segments_join hp hfurther
  have hhead : (p.join further).segments.head? = p.segments.head? := by
    rw [hjoined, List.head?_append_of_ne_nil _ hfront]
    rcases hp' with hp' | hp'
    · rw [hp']
    · rw [hp', List.head?_append_of_ne_nil _ hfront]
  have hbody : (p.join further).segments.filterMap Component.ofSegment?
      = p.segments.filterMap Component.ofSegment?
        ++ (Path.mk further).segments.filterMap Component.ofSegment? := by
    rcases hp' with hp' | hp'
    · rw [hjoined, hp', List.filterMap_append]
    · simp [hjoined, hp', List.filterMap_append, Component.ofSegment?]
  simp only [components, isAbsolute_join hp hfurther, hhead, hbody]
  split
  · rfl
  · split <;> rfl

lemma isAbsolute_append {first rest : String} (hfirst : (Path.mk first).isAbsolute = false)
    (hne : first ≠ "") : (Path.mk (first ++ rest)).isAbsolute = false := by
  have hlist : first.toList ≠ [] := by simpa using hne
  rw [isAbsolute] at hfirst ⊢
  rwa [String.toList_append, List.head?_append_of_ne_nil _ hlist]

/-- It does not matter in what order a path is put together. -/
lemma join_join (hp : p.text ≠ "") {first second : String}
    (hfirst : (Path.mk first).isAbsolute = false) (hne : first ≠ "")
    (hslash : (Path.mk first).slashEnded = false) (hsecond : (Path.mk second).isAbsolute = false) :
    (p.join first).join second = p.join (first ++ "/" ++ second) := by
  have hboth : (Path.mk (first ++ "/" ++ second)).isAbsolute = false := by
    rw [String.append_assoc]
    exact isAbsolute_append hfirst hne
  rw [join_eq (text_join_ne hp hfirst) hsecond, join_eq hp hboth, lead,
    slashEnded_join hp hfirst hne, hslash, join_eq hp hfirst]
  simp [String.append_assoc]

lemma size_join_le (hp : p.text ≠ "") (hfurther : (Path.mk further).isAbsolute = false) :
    p.text.utf8ByteSize + further.utf8ByteSize ≤ (p.join further).text.utf8ByteSize := by
  rw [join_eq hp hfurther, lead]
  split <;> simp

end Join

end Path

section Names

variable {name : String}

lemma ValidName.isAbsolute (h : ValidName name) : (Path.mk name).isAbsolute = false :=
  Path.isAbsolute_of_notMem h.2.2.2

lemma ValidName.slashEnded (h : ValidName name) : (Path.mk name).slashEnded = false := by
  obtain ⟨-, -, -, hslash⟩ := h
  rw [Path.slashEnded, beq_eq_false_iff_ne]
  intro hlast
  exact hslash (List.mem_of_getLast? hlast)

lemma ValidName.plainSteps (h : ValidName name) :
    (Path.mk name).plainSteps = [.down ⟨name, h⟩] := by
  have ⟨hempty, hdot, hdots, hslash⟩ := h
  simp [Path.plainSteps, Path.segments, Text.pieces_of_notMem hslash, Step.ofSegment?, hempty, hdot,
    hdots, h]

lemma ValidName.plainSteps_join {p : Path} (h : ValidName name) (hp : p.text ≠ "") :
    (p.join name).plainSteps = p.plainSteps ++ [.down ⟨name, h⟩] := by
  rw [Path.plainSteps_join hp h.isAbsolute, h.plainSteps]

lemma ValidName.slashEnded_join {p : Path} (h : ValidName name) (hp : p.text ≠ "") :
    (p.join name).slashEnded = false := by
  rw [Path.slashEnded_join hp h.isAbsolute h.1]
  exact h.slashEnded

/-- A path that leads on by a name and then further. -/
lemma ValidName.join_join {p : Path} {further : String} (h : ValidName name) (hp : p.text ≠ "")
    (hfurther : (Path.mk further).isAbsolute = false) :
    (p.join name).join further = p.join (name ++ "/" ++ further) :=
  Path.join_join hp h.isAbsolute h.1 h.slashEnded hfurther

lemma ValidName.isAbsolute_append {rest : String} (h : ValidName name) :
    (Path.mk (name ++ rest)).isAbsolute = false :=
  Path.isAbsolute_append h.isAbsolute h.1

lemma ValidName.size_pos (h : ValidName name) : 0 < name.utf8ByteSize := by
  have hne : name ≠ "" := h.1
  rw [Nat.pos_iff_ne_zero, Ne, String.utf8ByteSize_eq_zero_iff]
  exact hne

lemma ValidName.segments (h : ValidName name) : (Path.mk name).segments = [name] := by
  simp [Path.segments, Text.pieces_of_notMem h.2.2.2]

lemma ValidName.ofSegment? (h : ValidName name) :
    Path.Component.ofSegment? name = some (.name name) := by
  obtain ⟨hempty, hdot, hdots, -⟩ := h
  simp [Path.Component.ofSegment?, hempty, hdot, hdots]

lemma ValidName.components_join {p : Path} (h : ValidName name) (hp : p.text ≠ "") :
    (p.join name).components = p.components ++ [.name name] := by
  rw [Path.components_join hp h.isAbsolute, h.segments]
  simp [h.ofSegment?]

end Names

namespace Path

/-! ## Paths of names -/

/-- The path that leads down by the given names. -/
def ofNames (names : List String) : Path := ⟨"/".intercalate names⟩

lemma text_ofNames_cons_cons (first second : String) (rest : List String) :
    (ofNames (first :: second :: rest)).text
      = first ++ "/" ++ (ofNames (second :: rest)).text := by
  rw [ofNames, String.intercalate_cons_cons]
  rfl

/-- Texts without slashes are what is between the slashes. -/
lemma segments_ofNames_of_notMem {first : String} {rest : List String}
    (h : ∀ name ∈ first :: rest, '/' ∉ name.toList) :
    (ofNames (first :: rest)).segments = first :: rest := by
  induction rest generalizing first with
  | nil =>
    rw [ofNames, String.intercalate_singleton, segments,
      Text.pieces_of_notMem (h first List.mem_cons_self)]
    simp
  | cons second rest ih =>
    have hfirst := h first List.mem_cons_self
    have hrest := ih fun name hname => h name (List.mem_cons_of_mem first hname)
    have htext : (ofNames (first :: second :: rest)).text.toList
        = first.toList ++ '/' :: (ofNames (second :: rest)).text.toList := by
      simp [text_ofNames_cons_cons]
    rw [segments, htext, Text.pieces_append, Text.pieces_of_notMem hfirst,
      List.map_append, ← segments, hrest]
    simp

lemma isAbsolute_ofNames_of_notMem {names : List String}
    (h : ∀ first ∈ names.head?, first ≠ "" ∧ '/' ∉ first.toList) :
    (ofNames names).isAbsolute = false := by
  match names with
  | [] => rfl
  | [first] =>
    rw [ofNames, String.intercalate_singleton]
    exact isAbsolute_of_notMem (h first rfl).2
  | first :: second :: rest =>
    obtain ⟨hne, hslash⟩ := h first rfl
    rw [isAbsolute, text_ofNames_cons_cons, String.append_assoc]
    exact isAbsolute_append (isAbsolute_of_notMem hslash) hne

/-- A path is made of the texts between its slashes. -/
lemma ofNames_segments (p : Path) : ofNames p.segments = p := by
  suffices h : ∀ text : List Char,
      (ofNames ((Text.pieces '/' text).map String.ofList)).text.toList = text from
    congrArg Path.mk (String.toList_injective (h p.text.toList))
  intro text
  induction text with
  | nil => rfl
  | cons c rest ih =>
    rw [Text.pieces]
    cases hpieces : Text.pieces '/' rest with
    | nil => exact absurd hpieces (Text.pieces_ne_nil '/' rest)
    | cons piece others =>
      rw [hpieces] at ih
      split
      · next hc =>
        simp only [List.map_cons] at ih
        simp [text_ofNames_cons_cons, ih, hc]
      · cases others with
        | nil =>
          simp only [List.map_cons, List.map_nil, ofNames, String.intercalate_singleton] at ih ⊢
          simpa using ih
        | cons next others =>
          simp only [List.map_cons, text_ofNames_cons_cons] at ih ⊢
          simpa using ih

/-! ## Paths from one component to another -/

/-- The texts between the slashes from the first one that makes a component to the last one. -/
def core (p : Path) : List String :=
  (p.segments.rdropWhile (!makesComponent ·)).dropWhile (!makesComponent ·)

/-- The path without the slashes and dots at its ends that make no component. -/
def trimmed (p : Path) : Path := ofNames p.core

lemma makesComponent_eq_false {segment : String} :
    makesComponent segment = false ↔ Component.ofSegment? segment = none := by
  simp [makesComponent]

/-- Around the texts from the first component to the last one is nothing that makes any. -/
lemma exists_segments_eq (p : Path) :
    ∃ front back, p.segments = front ++ p.core ++ back ∧
      (∀ segment ∈ front, makesComponent segment = false) ∧
      ∀ segment ∈ back, makesComponent segment = false := by
  refine ⟨(p.segments.rdropWhile (!makesComponent ·)).takeWhile (!makesComponent ·),
    p.segments.rtakeWhile (!makesComponent ·), ?_, ?_, ?_⟩
  · rw [core, List.takeWhile_append_dropWhile, List.rdropWhile, List.rtakeWhile,
      ← List.reverse_append, List.takeWhile_append_dropWhile, List.reverse_reverse]
  · intro segment h
    simpa using List.mem_takeWhile_imp h
  · intro segment h
    simpa using List.mem_rtakeWhile_imp h

lemma mem_segments_of_mem_core {p : Path} {segment : String} (h : segment ∈ p.core) :
    segment ∈ p.segments := by
  obtain ⟨front, back, hsegments, -, -⟩ := p.exists_segments_eq
  rw [hsegments]
  exact List.mem_append_left back (List.mem_append_right front h)

lemma makesComponent_of_head?_core {p : Path} {segment : String} (h : segment ∈ p.core.head?) :
    makesComponent segment = true := by
  have hnot := List.head?_dropWhile_not (!makesComponent ·)
    (p.segments.rdropWhile (!makesComponent ·))
  rw [← core, Option.mem_def.mp h] at hnot
  simpa using hnot

lemma makesComponent_of_getLast?_core {p : Path} {segment : String}
    (h : segment ∈ p.core.getLast?) : makesComponent segment = true := by
  have hcore : p.core ≠ [] := by
    intro hnil
    rw [hnil] at h
    cases h
  have hlast : (p.segments.rdropWhile (!makesComponent ·)).getLast? = some segment := by
    rw [← List.takeWhile_append_dropWhile (p := (!makesComponent ·))
      (l := p.segments.rdropWhile (!makesComponent ·)), ← core,
      List.getLast?_append_of_ne_nil _ hcore]
    exact h
  have hne : p.segments.rdropWhile (!makesComponent ·) ≠ [] := by
    intro hnil
    rw [hnil] at hlast
    cases hlast
  have hnot := List.rdropWhile_last_not (!makesComponent ·) p.segments hne
  rw [List.getLast?_eq_some_getLast hne, Option.some.injEq] at hlast
  rw [hlast] at hnot
  simpa using hnot

lemma untilComponent_append {count : Nat} {segments : List String}
    (h : count ≤ segments.countP makesComponent) (rest : List String) :
    untilComponent count (segments ++ rest) = untilComponent count segments := by
  induction segments generalizing count with
  | nil =>
    obtain rfl : count = 0 := by simpa using h
    simp [untilComponent]
  | cons segment segments ih =>
    cases count with
    | zero => simp [untilComponent]
    | succ count =>
      rw [List.cons_append, untilComponent, untilComponent]
      by_cases hmakes : makesComponent segment = true
      · rw [if_pos hmakes, ih (by simpa [hmakes] using h)]
      · rw [if_neg hmakes, ih (by simpa [hmakes] using h)]

lemma countP_dropWhile (segments : List String) :
    (segments.dropWhile (!makesComponent ·)).countP makesComponent
      = segments.countP makesComponent := by
  induction segments with
  | nil => rfl
  | cons segment segments ih =>
    by_cases hmakes : makesComponent segment = true
    · rw [List.dropWhile_cons_of_neg (by simp [hmakes])]
    · rw [List.dropWhile_cons_of_pos (by simpa using hmakes), ih,
        List.countP_cons_of_neg hmakes]

/-- The texts up to the last one that makes a component. -/
lemma untilComponent_countP (segments : List String) :
    untilComponent (segments.countP makesComponent) segments
      = segments.rdropWhile (!makesComponent ·) := by
  induction segments with
  | nil => rfl
  | cons segment rest ih =>
    have hnone : rest.countP makesComponent = 0 ↔
        (rest.reverse.dropWhile (!makesComponent ·)).isEmpty = true := by
      simp [List.dropWhile_eq_nil_iff]
    rw [List.rdropWhile, List.reverse_cons, List.dropWhile_append]
    cases hlater : rest.countP makesComponent with
    | zero =>
      rw [if_pos (hnone.mp hlater)]
      by_cases hmakes : makesComponent segment = true
      · simp [hmakes, hlater, untilComponent]
      · simp [hmakes, hlater, untilComponent]
    | succ count =>
      rw [if_neg fun hempty => by simp [hnone.mpr hempty] at hlater, List.reverse_append,
        ← List.rdropWhile, ← ih]
      by_cases hmakes : makesComponent segment = true
      · rw [List.countP_cons_of_pos hmakes, untilComponent, if_pos hmakes]
        rfl
      · rw [List.countP_cons_of_neg hmakes, hlater, untilComponent, if_neg hmakes]
        rfl

lemma lastSegments_countP (p : Path) :
    p.lastSegments (p.segments.countP makesComponent) = p.core := by
  have hcount := countP_dropWhile p.segments.reverse
  rw [List.countP_reverse] at hcount
  rw [lastSegments, ← hcount, untilComponent_countP, List.rdropWhile, List.reverse_reverse, core,
    List.rdropWhile]

/-- What is in front of the last components does not count. -/
lemma lastSegments_eq_of_append {p q : Path} {front : List String}
    (h : p.segments = front ++ q.segments) :
    p.lastSegments (q.segments.countP makesComponent) = q.core := by
  have hcount := countP_dropWhile q.segments.reverse
  rw [List.countP_reverse] at hcount
  rw [← lastSegments_countP]
  simp only [lastSegments, h, List.reverse_append, List.dropWhile_append]
  split
  · next hempty =>
    rw [List.isEmpty_iff.mp hempty] at hcount
    rw [← hcount]
    simp [untilComponent]
  · rw [untilComponent_append (Nat.le_of_eq hcount.symm)]

lemma after?_append (front back : List Component) : after? front (front ++ back) = some back := by
  induction front with
  | nil => rfl
  | cons c front ih => simpa [after?] using ih

/-- What was joined to a path leads from there to the whole, from its first component to its last
one. -/
lemma relativeTo?_join {p : Path} {further : String} (hp : p.text ≠ "")
    (hfurther : (Path.mk further).isAbsolute = false) :
    (p.join further).relativeTo? p = some (Path.mk further).trimmed := by
  obtain ⟨front, -, hjoined, -⟩ := exists_segments_join hp hfurther
  have hcount : ((Path.mk further).segments.filterMap Component.ofSegment?).length
      = (Path.mk further).segments.countP makesComponent :=
    List.length_filterMap_eq_countP ..
  rw [relativeTo?, components_join hp hfurther, after?_append, Option.map_some, hcount,
    lastSegments_eq_of_append hjoined]
  rfl

section ValidNames

variable {first : String} {rest : List String} (hnames : ∀ name ∈ first :: rest, ValidName name)

include hnames

lemma isAbsolute_ofNames : (ofNames (first :: rest)).isAbsolute = false :=
  isAbsolute_ofNames_of_notMem fun name hname =>
    have hvalid := hnames name (List.mem_of_head? hname)
    ⟨hvalid.1, hvalid.2.2.2⟩

lemma segments_ofNames : (ofNames (first :: rest)).segments = first :: rest :=
  segments_ofNames_of_notMem fun name hname => (hnames name hname).2.2.2

lemma filterMap_ofSegment? :
    (first :: rest).filterMap Component.ofSegment? = (first :: rest).map .name := by
  rw [← List.filterMap_eq_map]
  exact List.filterMap_congr fun name hname => (hnames name hname).ofSegment?

lemma components_ofNames :
    (ofNames (first :: rest)).components = (first :: rest).map .name := by
  have hdot : first ≠ "." := (hnames first List.mem_cons_self).2.1
  simp only [components, isAbsolute_ofNames hnames, segments_ofNames hnames,
    filterMap_ofSegment? hnames]
  simp [hdot]

lemma names_ofNames : (ofNames (first :: rest)).names = first :: rest := by
  rw [names, components_ofNames hnames, List.filterMap_map]
  exact List.filterMap_some

lemma trimmed_ofNames : (ofNames (first :: rest)).trimmed = ofNames (first :: rest) := by
  have hmakes : ∀ name ∈ first :: rest, makesComponent name = true := by
    intro name hname
    rw [makesComponent, (hnames name hname).ofSegment?]
    rfl
  have hlast : (first :: rest).rdropWhile (!makesComponent ·) = first :: rest :=
    List.rdropWhile_eq_self_iff.mpr fun hl => by simp [hmakes _ (List.getLast_mem hl)]
  rw [trimmed, core, segments_ofNames hnames, hlast,
    List.dropWhile_cons_of_neg (by simp [hmakes first List.mem_cons_self])]

variable {p : Path} (hp : p.text ≠ "")

include hp

/-- Names can be joined to a path one after the other. -/
lemma join_ofNames :
    p.join (ofNames (first :: rest)).text = (first :: rest).foldl join p := by
  induction rest generalizing first p with
  | nil => rw [ofNames, String.intercalate_singleton, List.foldl_cons, List.foldl_nil]
  | cons second rest ih =>
    have hfirst := hnames first List.mem_cons_self
    have hlater : ∀ name ∈ second :: rest, ValidName name :=
      fun name hname => hnames name (List.mem_cons_of_mem first hname)
    have hrelative : (Path.mk (ofNames (second :: rest)).text).isAbsolute = false :=
      isAbsolute_ofNames hlater
    rw [text_ofNames_cons_cons, ← hfirst.join_join hp hrelative,
      ih hlater (text_join_ne hp hfirst.isAbsolute)]
    rfl

/-- Names that were joined to a path lead from there to the whole. -/
lemma relativeTo?_join_ofNames :
    (p.join (ofNames (first :: rest)).text).relativeTo? p = some (ofNames (first :: rest)) := by
  have hrelative : (Path.mk (ofNames (first :: rest)).text).isAbsolute = false :=
    isAbsolute_ofNames hnames
  rw [relativeTo?_join hp hrelative]
  exact congrArg some (trimmed_ofNames hnames)

end ValidNames

end Path

end ChangeTracking
